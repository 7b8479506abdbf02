import Mathlib.Algebra.BigOperators.Group.List.Basic
import Mathlib.Algebra.Ring.Nat

/-!
# The first element of a list that satisfies a test

A loop that walks a list to the first match and then erases or changes it.
`find?` and `eraseP` are the library's; `updateFirst` is the in-place change.
Each is described by the split of the list at the match (`split_of_find?`), and
from the split come what the loop does to a sum and to a count over the list.
-/

namespace Lib

open List

variable {α : Type}

/-- Changes the first element that satisfies `p`. -/
def updateFirst (p : α → Bool) (f : α → α) : List α → List α
  | [] => []
  | a :: l => if p a then f a :: l else a :: updateFirst p f l

variable {a : α} {l : List α} {p : α → Bool} {f : α → α}

theorem split_of_find? (h : l.find? p = some a) :
    ∃ l₁ l₂, l = l₁ ++ a :: l₂ ∧ (∀ b ∈ l₁, p b = false) ∧ p a ∧
      l.eraseP p = l₁ ++ l₂ ∧ ∀ f, updateFirst p f l = l₁ ++ f a :: l₂ := by
  induction l with
  | nil => cases h
  | cons b l ih =>
    rw [find?_cons] at h
    cases hb : p b with
    | true =>
      rw [hb] at h
      obtain rfl : b = a := Option.some.inj h
      exact ⟨[], l, rfl, by simp, hb, by simp [hb], fun f => by simp [updateFirst, hb]⟩
    | false =>
      rw [hb] at h
      obtain ⟨l₁, l₂, hl, hno, ha, he, hu⟩ := ih h
      refine ⟨b :: l₁, l₂, by rw [hl]; rfl, ?_, ha, ?_, fun f => ?_⟩
      · intro c hc
        rcases List.mem_cons.mp hc with rfl | hc
        · exact hb
        · exact hno c hc
      · rw [eraseP_cons_of_neg (by simp [hb]), he]; rfl
      · rw [updateFirst, if_neg (by simp [hb]), hu f]; rfl

theorem at_split {p : α → Bool} {l₁ l₂ : List α} {a : α} (hno : ∀ b ∈ l₁, p b = false) (ha : p a) :
    (l₁ ++ a :: l₂).find? p = some a ∧ (l₁ ++ a :: l₂).eraseP p = l₁ ++ l₂ ∧ ∀ f,
    updateFirst p f (l₁ ++ a :: l₂) = l₁ ++ f a :: l₂ := by
  have hfind : (l₁ ++ a :: l₂).find? p = some a := by
    rw [find?_append, List.find?_eq_none.mpr (by simpa using hno), find?_cons, ha]; rfl
  induction l₁ with
  | nil => exact ⟨hfind, by simp [ha], fun f => by simp [updateFirst, ha]⟩
  | cons b l₁ ih =>
    have hb := hno b mem_cons_self
    have hno' : ∀ c ∈ l₁, p c = false := fun c hc => hno c (mem_cons_of_mem _ hc)
    have hfind' : (l₁ ++ a :: l₂).find? p = some a := by rwa [cons_append, find?_cons, hb] at hfind
    obtain ⟨-, he, hu⟩ := ih hno' hfind'
    refine ⟨hfind, ?_, fun f => ?_⟩
    · rw [cons_append, eraseP_cons_of_neg (by simp [hb]), he]; rfl
    · rw [cons_append, updateFirst, if_neg (by simp [hb]), hu f]; rfl

theorem updateFirst_of_find?_none (h : l.find? p = none) (f : α → α) : updateFirst p f l = l := by
  induction l with
  | nil => rfl
  | cons b l ih =>
    rw [find?_cons] at h
    cases hb : p b with
    | true => rw [hb] at h; cases h
    | false =>
      rw [hb] at h
      rw [updateFirst, if_neg (by simp [hb]), ih h]

theorem map_updateFirst {β : Type} {g : α → β} {q : β → Bool} {h : β → β} (hp : ∀ a, p a = q (g a))
    (hf : ∀ a, g (f a) = h (g a)) (l : List α) :
    (updateFirst p f l).map g = updateFirst q h (l.map g) := by
  induction l with
  | nil => rfl
  | cons a l ih =>
    rw [updateFirst, map_cons, updateFirst, hp a]
    split
    · rw [map_cons, hf]
    · rw [map_cons, ih]

theorem map_updateFirst_eq {β : Type} {g : α → β} (h : ∀ a, p a → g (f a) = g a) (l : List α) :
    (updateFirst p f l).map g = l.map g := by
  induction l with
  | nil => rfl
  | cons a l ih =>
    rw [updateFirst]
    split
    · next hp => rw [map_cons, h a hp, map_cons]
    · rw [map_cons, ih, map_cons]

theorem forall_updateFirst {P : α → Prop} (h : ∀ a ∈ l, P a) (hf : ∀ a ∈ l, P a → P (f a)) :
    ∀ a ∈ updateFirst p f l, P a := by
  cases hfind : l.find? p with
  | none => rwa [updateFirst_of_find?_none hfind]
  | some b =>
    obtain ⟨l₁, l₂, hl, -, -, -, hu⟩ := split_of_find? hfind
    rw [hu f]
    subst hl
    intro a ha
    rcases List.mem_append.mp ha with ha | ha
    · exact h a (mem_append_left _ ha)
    · rcases List.mem_cons.mp ha with rfl | ha
      · exact hf b (by simp) (h b (by simp))
      · exact h a (by simp [ha])

/-- The weights of the elements that satisfy `q`, added up. -/
def sumOn (q : α → Bool) (w : α → Nat) (l : List α) : Nat := ((l.filter q).map w).sum

section SumOn

variable (q : α → Bool) (w : α → Nat)

@[simp] theorem sumOn_nil : sumOn q w [] = 0 := rfl

@[simp] theorem sumOn_cons (a : α) (l : List α) :
    sumOn q w (a :: l) = (if q a then w a else 0) + sumOn q w l := by
  unfold sumOn
  by_cases h : q a <;> simp [h]

@[simp] theorem sumOn_append (l l' : List α) :
    sumOn q w (l ++ l') = sumOn q w l + sumOn q w l' := by
  simp [sumOn]

variable {q w}

section

variable (h : l.find? p = some a)

include h

theorem sumOn_eraseP : sumOn q w l = sumOn q w (l.eraseP p) + if q a then w a else 0 := by
  obtain ⟨l₁, l₂, hl, -, -, he, -⟩ := split_of_find? h
  rw [he, hl]
  simp only [sumOn_append, sumOn_cons]
  omega

theorem countP_eraseP : l.countP q = (l.eraseP p).countP q + if q a then 1 else 0 := by
  obtain ⟨l₁, l₂, hl, -, -, he, -⟩ := split_of_find? h
  rw [he, hl]
  simp only [countP_append, countP_cons]
  omega

theorem length_eraseP_of_find? : l.length = (l.eraseP p).length + 1 := by
  obtain ⟨l₁, l₂, hl, -, -, he, -⟩ := split_of_find? h
  rw [he, hl]
  simp only [length_append, length_cons]
  omega

end

theorem sumOn_filter_add (p : α → Bool) (l : List α) :
    sumOn q w l = sumOn q w (l.filter fun a => !p a) + sumOn q w (l.filter p) := by
  induction l with
  | nil => rfl
  | cons a l ih => cases hp : p a <;> simp [hp] <;> omega

theorem countP_filter_add (p : α → Bool) (l : List α) :
    l.countP q = (l.filter fun a => !p a).countP q + (l.filter p).countP q := by
  induction l with
  | nil => rfl
  | cons a l ih => cases hp : p a <;> simp [countP_cons, hp] <;> omega

theorem sumOn_congr {q' : α → Bool} {w' : α → Nat} (h : ∀ a ∈ l, q a = q' a ∧ w a = w' a) :
    sumOn q w l = sumOn q' w' l := by
  induction l with
  | nil => rfl
  | cons a l ih =>
    obtain ⟨hqa, hwa⟩ := h a mem_cons_self
    rw [sumOn_cons, sumOn_cons, hqa, hwa, ih fun b hb => h b (mem_cons_of_mem _ hb)]

end SumOn

end Lib
