import Mathlib.Data.List.Basic

/-!
# Cursors

A cursor is an index into a list or the index behind its end.  `advance` and
`retreat` are the loops `do ++i while (!stops (i))` and `do --i while
(!stops (i))`; there is no result where the cursor leaves the list on either
side.  `walk` is the loop `for (; s != end; s = next (s))` with what it reads,
and `Visits` says what it reads without its fuel.

A cursor that stops where a test holds, and at the end, visits the filtered
list (`visits_filter`).
-/

namespace Lib

open List Option

/-- `do ++i while (!stops (i))`, with `room` places behind `i`. -/
def advance (stops : Nat → Bool) : Nat → Nat → Option Nat
  | 0, _ => none
  | room + 1, i => if stops (i + 1) then some (i + 1) else advance stops room (i + 1)

/-- `do --i while (!stops (i))`. -/
def retreat (stops : Nat → Bool) : Nat → Option Nat
  | 0 => none
  | i + 1 => if stops i then some i else retreat stops i

/-- `begin` of a list of `n` places: the first stop. -/
def firstStop (stops : Nat → Bool) (n : Nat) : Option Nat :=
  if stops 0 then some 0 else advance stops n 0

section Steps

variable {stops : Nat → Bool} {i j : Nat}

theorem advance_eq_some {room : Nat} : advance stops room i = some j ↔ i < j ∧ j ≤ i + room ∧
    stops j ∧ ∀ k, i < k → k < j → stops k = false := by
  induction room generalizing i with
  | zero =>
    constructor
    · intro h; cases h
    · rintro ⟨h₁, h₂, -⟩; omega
  | succ room ih =>
    rw [advance]
    by_cases hs : stops (i + 1)
    · rw [if_pos hs]
      constructor
      · intro h
        cases h
        exact ⟨by omega, by omega, hs, fun k h₁ h₂ => by omega⟩
      · rintro ⟨h₁, -, -, h₄⟩
        by_cases hj : j = i + 1
        · rw [hj]
        · rw [h₄ (i + 1) (by omega) (by omega)] at hs; cases hs
    rw [if_neg hs, ih]
    constructor
    · rintro ⟨h₁, h₂, h₃, h₄⟩
      refine ⟨by omega, by omega, h₃, fun k hk₁ hk₂ => ?_⟩
      by_cases hk : k = i + 1
      · rw [hk]; exact Bool.eq_false_iff.mpr hs
      · exact h₄ k (by omega) hk₂
    · rintro ⟨h₁, h₂, h₃, h₄⟩
      have hj : j ≠ i + 1 := by
        intro hj
        rw [hj] at h₃
        exact hs h₃
      exact ⟨by omega, by omega, h₃, fun k hk₁ hk₂ => h₄ k (by omega) hk₂⟩

theorem retreat_eq_some : retreat stops i = some j ↔ j < i ∧ stops j ∧ ∀ k, j < k → k < i →
    stops k = false := by
  induction i with
  | zero =>
    constructor
    · intro h; cases h
    · rintro ⟨h, -⟩; omega
  | succ i ih =>
    rw [retreat]
    by_cases hs : stops i
    · rw [if_pos hs]
      constructor
      · intro h
        cases h
        exact ⟨by omega, hs, fun k h₁ h₂ => by omega⟩
      · rintro ⟨h₁, -, h₃⟩
        by_cases hj : j = i
        · rw [hj]
        · rw [h₃ i (by omega) (by omega)] at hs; cases hs
    rw [if_neg hs, ih]
    constructor
    · rintro ⟨h₁, h₂, h₃⟩
      refine ⟨by omega, h₂, fun k hk₁ hk₂ => ?_⟩
      by_cases hk : k = i
      · rw [hk]; exact Bool.eq_false_iff.mpr hs
      · exact h₃ k hk₁ (by omega)
    · rintro ⟨h₁, h₂, h₃⟩
      have hj : j ≠ i := by
        intro hj
        rw [hj] at h₂
        exact hs h₂
      exact ⟨by omega, h₂, fun k hk₁ hk₂ => h₃ k hk₁ (by omega)⟩

theorem retreat_eq_none : retreat stops i = none ↔ ∀ k, k < i → stops k = false := by
  induction i with
  | zero => simp [retreat]
  | succ i ih =>
    rw [retreat]
    by_cases hs : stops i
    · rw [if_pos hs]
      constructor
      · intro h; cases h
      · intro h
        rw [h i (by omega)] at hs
        cases hs
    rw [if_neg hs, ih]
    constructor
    · intro h k hk
      by_cases hki : k = i
      · rw [hki]; exact Bool.eq_false_iff.mpr hs
      · exact h k (by omega)
    · intro h k hk; exact h k (by omega)

theorem exists_advance (room : Nat) (hij : i < j) (hroom : j ≤ i + room) (hj : stops j) :
    ∃ k, advance stops room i = some k := by
  induction room generalizing i with
  | zero => omega
  | succ room ih =>
    rw [advance]
    by_cases hs : stops (i + 1)
    · exact ⟨i + 1, if_pos hs⟩
    · rw [if_neg hs]
      have hne : j ≠ i + 1 := by
        intro h
        rw [h] at hj
        exact hs hj
      exact ih (by omega) (by omega)

theorem exists_firstStop {n : Nat} (hn : stops n) :
    ∃ i, firstStop stops n = some i ∧ i ≤ n ∧ stops i ∧ ∀ k, k < i → stops k = false := by
  by_cases h : stops 0
  · exact ⟨0, if_pos h, Nat.zero_le n, h, fun k hk => absurd hk (by omega)⟩
  have hpos : 0 < n := by
    rcases Nat.eq_zero_or_pos n with h0 | h0
    · rw [h0] at hn; exact absurd hn h
    · exact h0
  obtain ⟨j, hj⟩ := exists_advance n hpos (by omega) hn
  obtain ⟨-, hle, hsj, hbetween⟩ := advance_eq_some.mp hj
  refine ⟨j, by rw [firstStop, if_neg h, hj], by omega, hsj, fun k hk => ?_⟩
  rcases Nat.eq_zero_or_pos k with h0 | h0
  · rw [h0]; exact Bool.eq_false_iff.mpr h
  · exact hbetween k h0 hk

theorem exists_retreat (hji : j < i) (hj : stops j) : ∃ k, retreat stops i = some k := by
  cases h : retreat stops i with
  | some k => exact ⟨k, rfl⟩
  | none => rw [retreat_eq_none.mp h j hji] at hj; cases hj

end Steps

/-! ## Loops over a cursor -/

section Walk

variable {σ α : Type} (atEnd : σ → Bool) (read : σ → Option α) (next : σ → Option σ)

/-- `for (; s != end; s = next (s))`: what the loop reads; none when it runs out of fuel or a step
has no result. -/
def walk : Nat → σ → Option (List α)
  | 0, _ => none
  | fuel + 1, s =>
    if atEnd s then some []
    else do
      let a ← read s
      let s ← next s
      let as ← walk fuel s
      pure (a :: as)

inductive Visits : σ → List α → Prop
  | stop {s : σ} : atEnd s → Visits s []
  | visit {s s' : σ} {a : α} {as : List α} :
    atEnd s = false → read s = some a → next s = some s' → Visits s' as → Visits s (a :: as)

variable {atEnd read next}
variable {as : List α} {fuel : Nat} {s : σ}

theorem Visits.walk_eq (h : Visits atEnd read next s as) (hfuel : as.length < fuel) :
    walk atEnd read next fuel s = some as := by
  induction h generalizing fuel with
  | stop hend =>
    obtain ⟨fuel, rfl⟩ := Nat.exists_eq_succ_of_ne_zero (by omega : fuel ≠ 0)
    rw [walk, if_pos hend]
  | @visit s s' a as hend hread hnext _ ih =>
    obtain ⟨fuel, rfl⟩ := Nat.exists_eq_succ_of_ne_zero (by omega : fuel ≠ 0)
    rw [length_cons] at hfuel
    rw [walk, if_neg (Bool.eq_false_iff.mp hend), hread, hnext]
    show ((walk atEnd read next fuel s').bind fun as => some (a :: as)) = _
    rw [ih (by omega)]
    rfl

theorem walk_add (h : walk atEnd read next fuel s = some as) (n : Nat) :
    walk atEnd read next (fuel + n) s = some as := by
  induction fuel generalizing s as with
  | zero => cases h
  | succ fuel ih =>
    rw [show fuel + 1 + n = fuel + n + 1 by omega, walk]
    rw [walk] at h
    by_cases hend : atEnd s
    · rw [if_pos hend] at h ⊢; exact h
    · rw [if_neg hend] at h ⊢
      obtain ⟨a, ha, h⟩ := bind_eq_some_iff.mp h
      obtain ⟨s', hs', h⟩ := bind_eq_some_iff.mp h
      obtain ⟨as', has', h⟩ := bind_eq_some_iff.mp h
      refine bind_eq_some_iff.mpr ⟨a, ha, bind_eq_some_iff.mpr ⟨s', hs', ?_⟩⟩
      exact bind_eq_some_iff.mpr ⟨as', ih has', h⟩

end Walk

/-! ## Stops of a list -/

def holdsAt {α : Type} (p : α → Bool) (xs : List α) (i : Nat) : Bool := (xs[i]?).elim false p

section Filter

variable {α : Type} {p : α → Bool} {xs : List α}

theorem holdsAt_eq_true {i : Nat} : holdsAt p xs i ↔ ∃ a, xs[i]? = some a ∧ p a := by
  unfold holdsAt
  cases h : xs[i]? with
  | none => simp
  | some a => simp

theorem lt_of_holdsAt {i : Nat} (h : holdsAt p xs i) : i < xs.length := by
  obtain ⟨a, ha, -⟩ := holdsAt_eq_true.mp h
  exact (List.getElem?_eq_some_iff.mp ha).1

theorem filter_drop_of_not {i j : Nat} (hij : i ≤ j) (hj : j ≤ xs.length)
    (h : ∀ k, i ≤ k → k < j → holdsAt p xs k = false) :
    (xs.drop i).filter p = (xs.drop j).filter p := by
  obtain ⟨d, rfl⟩ := Nat.exists_eq_add_of_le hij
  induction d with
  | zero => rfl
  | succ d ih =>
    rw [ih (by omega) (by omega) fun k hk₁ hk₂ => h k hk₁ (by omega)]
    have hlt : i + d < xs.length := by omega
    have hp : p xs[i + d] = false := by
      have := h (i + d) (by omega) (by omega)
      rwa [holdsAt, getElem?_eq_getElem hlt] at this
    rw [drop_eq_getElem_cons hlt, filter_cons_of_neg (by rw [hp]; exact Bool.false_ne_true)]
    rfl

/-- A cursor that stops where the test holds and at the end visits the filtered list; `place i` is
the state with the cursor at `i`. -/
theorem visits_filter {σ : Type} {atEnd : σ → Bool} {read : σ → Option α} {next : σ → Option σ}
    (stops : Nat → Bool) (place : Nat → σ)
    (hstops : ∀ i, i ≤ xs.length → stops i = (decide (i = xs.length) || holdsAt p xs i))
    (hend : ∀ i, i ≤ xs.length → atEnd (place i) = decide (i = xs.length))
    (hread : ∀ i, i < xs.length → read (place i) = xs[i]?)
    (hnext : ∀ i, i < xs.length → next (place i) = (advance stops (xs.length - i) i).map place)
    {i : Nat} (hi : i ≤ xs.length) (hstop : stops i) :
    Visits atEnd read next (place i) ((xs.drop i).filter p) := by
  -- by the distance to the end, which each step makes smaller
  induction hn : xs.length - i using Nat.strongRecOn generalizing i with
  | ind n ih =>
    by_cases hlen : i = xs.length
    · rw [hlen, drop_length]; exact Visits.stop (by rw [hend _ (Nat.le_refl _)]; simp)
    have hlt : i < xs.length := by omega
    have hp : p xs[i] := by
      rw [hstops i hi] at hstop; simpa [hlen, holdsAt, hlt] using hstop
    have hstop' : stops xs.length := by
      rw [hstops _ (Nat.le_refl _)]; simp
    obtain ⟨j, hj⟩ := exists_advance (xs.length - i) hlt (by omega) hstop'
    obtain ⟨hij, hjlen, hsj, hbetween⟩ := advance_eq_some.mp hj
    have hjle : j ≤ xs.length := by omega
    have hskip : (xs.drop (i + 1)).filter p = (xs.drop j).filter p := by
      refine filter_drop_of_not (by omega) hjle fun k hk₁ hk₂ => ?_
      have := hbetween k (by omega) hk₂
      rw [hstops k (by omega)] at this
      exact (Bool.or_eq_false_iff.mp this).2
    rw [drop_eq_getElem_cons hlt, filter_cons_of_pos hp, hskip]
    refine Visits.visit ?_ ?_ ?_ (ih (xs.length - j) (by omega) hjle hsj rfl)
    · rw [hend i hi]; exact decide_eq_false hlen
    · rw [hread i hlt, getElem?_eq_getElem hlt]
    · rw [hnext i hlt, hj]; rfl

end Filter

end Lib
