import Mathlib.Data.List.Chain
import Mathlib.Data.List.Infix
import Mathlib.Data.List.Nodup

/-!
# Doubly linked lists between two sentinels

`Listed` says that `next` leads from a head through the elements of a list link a tail and
that `prev` leads back.  What a link is stays open: `link a` is the link to `a`.  An element
is put in by a write of its own links and of one link on either side
(`Listed.insert`), and it is taken out by the latter alone (`Listed.unlink`).
-/

namespace Lib

open List Function

variable {α β : Type}

/-- Each element of the path and the one after it are linked both ways. -/
def Linked (next prev : α → β) (link : α → β) (path : List α) : Prop :=
  path.IsChain fun a b => next a = link b ∧ prev b = link a

def Listed (next prev : α → β) (link : α → β) (head tail : α) (l : List α) : Prop :=
  Linked next prev link (head :: (l ++ [tail]))

def lastOf (head : α) (l : List α) : α := l.getLast?.getD head

def firstOf (l : List α) (tail : α) : α := l.head?.getD tail

variable {next prev next' prev' link : α → β} {head tail a b e : α} {path xs ys l l' : List α}

@[simp] theorem lastOf_nil (head : α) : lastOf head [] = head := rfl

@[simp] theorem lastOf_concat (head a : α) (l : List α) : lastOf head (l ++ [a]) = a := by
  simp [lastOf]

@[simp] theorem firstOf_nil (tail : α) : firstOf [] tail = tail := rfl

@[simp] theorem firstOf_cons (a tail : α) (l : List α) : firstOf (a :: l) tail = a := rfl

theorem lastOf_mem (head : α) (l : List α) : lastOf head l ∈ head :: l := by
  rcases eq_nil_or_concat l with rfl | ⟨l, a, rfl⟩
  · exact mem_cons_self
  · rw [concat_eq_append]; simp

theorem firstOf_mem (l : List α) (tail : α) : firstOf l tail ∈ l ++ [tail] := by cases l <;> simp

theorem seam (head tail : α) (xs ys : List α) : ∃ before after,
    head :: xs = before ++ [lastOf head xs] ∧ ys ++ [tail] = firstOf ys tail :: after := by
  have hbefore : ∃ before, head :: xs = before ++ [lastOf head xs] := by
    rcases eq_nil_or_concat xs with rfl | ⟨xs, a, rfl⟩
    · exact ⟨[], rfl⟩
    · exact ⟨head :: xs, by rw [concat_eq_append, lastOf_concat, cons_append]⟩
  have hafter : ∃ after, ys ++ [tail] = firstOf ys tail :: after := by
    cases ys with
    | nil => exact ⟨[], rfl⟩
    | cons b ys => exact ⟨ys ++ [tail], rfl⟩
  obtain ⟨before, hbefore⟩ := hbefore
  obtain ⟨after, hafter⟩ := hafter
  exact ⟨before, after, hbefore, hafter⟩

/-- Links that stay as they were on the path: `next` but for its end, `prev` but for its
start. -/
theorem Linked.congr (h : Linked next prev link path)
    (hnext : ∀ u ∈ path.dropLast, next' u = next u)
    (hprev : ∀ v ∈ path.tail, prev' v = prev v) : Linked next' prev' link path := by
  induction path with
  | nil => exact List.IsChain.nil
  | cons a path ih =>
    cases path with
    | nil => exact List.IsChain.singleton a
    | cons b path =>
      obtain ⟨⟨hab, hba⟩, hrest⟩ := isChain_cons_cons.1 h
      refine isChain_cons_cons.2 ⟨⟨?_, ?_⟩, ih hrest ?_ ?_⟩
      · rw [hnext a mem_cons_self, hab]
      · rw [hprev b mem_cons_self, hba]
      · exact fun u hu => hnext u (mem_cons_of_mem a hu)
      · exact fun v hv => hprev v (mem_cons_of_mem b hv)

theorem linked_seam : Linked next prev link (xs ++ a :: b :: ys) ↔
    Linked next prev link (xs ++ [a]) ∧ (next a = link b ∧ prev b = link a) ∧
      Linked next prev link (b :: ys) := isChain_append_cons_cons

theorem listed_seam : Listed next prev link head tail (xs ++ ys) ↔
    Linked next prev link (head :: xs) ∧
      (next (lastOf head xs) = link (firstOf ys tail) ∧
        prev (firstOf ys tail) = link (lastOf head xs)) ∧
      Linked next prev link (ys ++ [tail]) := by
  obtain ⟨before, after, hbefore, hafter⟩ := seam head tail xs ys
  have hpath : head :: (xs ++ ys ++ [tail]) =
      before ++ lastOf head xs :: firstOf ys tail :: after := by
    rw [append_assoc, ← cons_append, hbefore, hafter, append_assoc]
    rfl
  rw [Listed, hpath, hbefore, hafter, linked_seam]

section

variable (h : Listed next prev link head tail (xs ++ ys))

include h

theorem Listed.next_last :
    next (lastOf head xs) = link (firstOf ys tail) := (listed_seam.1 h).2.1.1

omit h in
theorem Listed.next_head (h : Listed next prev link head tail xs) :
    next head = link (firstOf xs tail) :=
  @Listed.next_last _ _ _ _ _ _ _ [] _ h

theorem Listed.prev_first :
    prev (firstOf ys tail) = link (lastOf head xs) := (listed_seam.1 h).2.1.2

end

section

variable (h : Listed next prev link head tail (xs ++ e :: ys))

include h

theorem Listed.next_eq :
    next e = link (firstOf ys tail) := by
  have hsplit : Listed next prev link head tail ((xs ++ [e]) ++ ys) := by
    rwa [append_assoc, singleton_append]
  have hnext := hsplit.next_last
  rwa [lastOf_concat] at hnext

theorem Listed.prev_eq :
    prev e = link (lastOf head xs) := h.prev_first

end

theorem Listed.unique (hinj : ∀ a b, link a = link b → a = b)
    (h : Listed next prev link head tail l)
    (h' : Listed next prev link head tail l') (hl : tail ∉ l) (hl' : tail ∉ l') : l = l' := by
  induction l generalizing head l' with
  | nil =>
    cases l' with
    | nil => rfl
    | cons b l' =>
      have hnext := (isChain_cons_cons.1 h).1.1
      have hnext' := (isChain_cons_cons.1 h').1.1
      have heq := hinj _ _ (hnext.symm.trans hnext')
      exact absurd (heq ▸ mem_cons_self) hl'
  | cons a l ih =>
    obtain ⟨hlink, hrest⟩ := isChain_cons_cons.1 h
    cases l' with
    | nil =>
      have hnext' := (isChain_cons_cons.1 h').1.1
      have heq := hinj _ _ (hlink.1.symm.trans hnext')
      exact absurd (heq ▸ mem_cons_self) hl
    | cons b l' =>
      obtain ⟨hlink', hrest'⟩ := isChain_cons_cons.1 h'
      have heq := hinj _ _ (hlink.1.symm.trans hlink'.1)
      subst heq
      rw [mem_cons, not_or] at hl hl'
      rw [ih hrest hrest' hl.2 hl'.2]

section Write

variable [DecidableEq α]

theorem Listed.write_off {u v : β} (h : Listed next prev link head tail l)
    (he : e ∉ head :: (l ++ [tail])) :
    Listed (Function.update next e u) (Function.update prev e v) link head tail l := by
  refine Linked.congr h (fun a ha => ?_) fun a ha => ?_
  · refine update_of_ne ?_ _ _
    rintro rfl
    exact he (mem_of_mem_dropLast ha)
  · refine update_of_ne ?_ _ _
    rintro rfl
    exact he (mem_of_mem_tail ha)

omit [DecidableEq α] in
theorem nodup_seam (h : (head :: (xs ++ ys ++ [tail])).Nodup) :
    (head :: xs).Disjoint (ys ++ [tail]) ∧ (head :: xs).Nodup ∧ (ys ++ [tail]).Nodup := by
  rw [append_assoc, ← cons_append] at h
  exact ⟨disjoint_of_nodup_append h, h.of_append_left, h.of_append_right⟩

theorem Linked.rejoin {u v : β} (hnodup : (head :: (xs ++ ys ++ [tail])).Nodup)
    (hxs : Linked next prev link (head :: xs)) (hys : Linked next prev link (ys ++ [tail])) :
    Linked (Function.update next (lastOf head xs) u) (Function.update prev (firstOf ys tail) v) link
        (head :: xs) ∧
      Linked (Function.update next (lastOf head xs) u) (Function.update prev (firstOf ys tail) v)
        link (ys ++ [tail]) := by
  obtain ⟨hdisj, hnx, hny⟩ := nodup_seam hnodup
  obtain ⟨before, after, hbefore, hafter⟩ := seam head tail xs ys
  have hlast := lastOf_mem head xs
  have hfirst := firstOf_mem ys tail
  constructor
  · refine hxs.congr (fun w hw => update_of_ne ?_ _ _)
      fun w hw => update_of_ne ?_ _ _
    · rintro rfl
      rw [hbefore, dropLast_concat] at hw
      rw [hbefore] at hnx
      exact disjoint_of_nodup_append hnx hw (mem_singleton.2 rfl)
    · rintro rfl; exact hdisj (mem_of_mem_tail hw) hfirst
  refine hys.congr (fun w hw => update_of_ne ?_ _ _)
    fun w hw => update_of_ne ?_ _ _
  · rintro rfl; exact hdisj hlast (mem_of_mem_dropLast hw)
  · rintro rfl
    rw [hafter] at hw
    rw [hafter] at hny
    exact (nodup_cons.1 hny).1 hw

theorem Listed.insert (h : Listed next prev link head tail (xs ++ ys))
    (hnodup : (head :: (xs ++ ys ++ [tail])).Nodup) (he : e ∉ head :: (xs ++ ys ++ [tail])) :
    Listed
      (Function.update (Function.update next e (link (firstOf ys tail))) (lastOf head xs) (link e))
      (Function.update (Function.update prev e (link (lastOf head xs))) (firstOf ys tail) (link e))
      link head tail (xs ++ e :: ys) := by
  have hpath : head :: (xs ++ ys ++ [tail]) = (head :: xs) ++ (ys ++ [tail]) := by
    rw [append_assoc, cons_append]
  rw [hpath, mem_append, not_or] at he
  have hlast : e ≠ lastOf head xs := fun heq => he.1 (heq ▸ lastOf_mem head xs)
  have hfirst : e ≠ firstOf ys tail := fun heq => he.2 (heq ▸ firstOf_mem ys tail)
  have hoff : e ∉ head :: (xs ++ ys ++ [tail]) := by rwa [hpath, mem_append, not_or]
  obtain ⟨hxs, -, hys⟩ := listed_seam.1
    (h.write_off (u := link (firstOf ys tail)) (v := link (lastOf head xs)) hoff)
  obtain ⟨hxs', hys'⟩ := Linked.rejoin (u := link e) (v := link e) hnodup hxs hys
  refine listed_seam.2 ⟨hxs', ⟨update_self .., ?_⟩, ?_⟩
  · rw [firstOf_cons, update_of_ne hfirst, update_self]
  · obtain ⟨before, after, -, hafter⟩ := seam head tail xs ys
    rw [cons_append]
    rw [hafter] at hys' ⊢
    refine isChain_cons_cons.2 ⟨⟨?_, update_self ..⟩, hys'⟩
    rw [update_of_ne hlast, update_self]

theorem Listed.unlink (h : Listed next prev link head tail (xs ++ e :: ys))
    (hnodup : (head :: (xs ++ ys ++ [tail])).Nodup) :
    Listed (Function.update next (lastOf head xs) (link (firstOf ys tail)))
      (Function.update prev (firstOf ys tail) (link (lastOf head xs))) link head tail
      (xs ++ ys) := by
  obtain ⟨hxs, -, hrest⟩ := listed_seam.1 h
  have hys : Linked next prev link (ys ++ [tail]) := List.IsChain.tail hrest
  obtain ⟨hxs', hys'⟩ := Linked.rejoin (u := link (firstOf ys tail)) (v := link (lastOf head xs))
    hnodup hxs hys
  exact listed_seam.2 ⟨hxs', ⟨update_self .., update_self ..⟩, hys'⟩

end Write

end Lib
