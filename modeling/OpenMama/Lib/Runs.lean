import Mathlib.Init

/-!
# Runs of a partial step

A system takes labelled steps; a step that is not possible is `none`.  `Runs` collects the
states that steps meeting a condition lead to, and what such a step keeps holds in all of
them (`Runs.invariant`).
-/

namespace Lib

open List Option

variable {S L : Type}

/-- The states reached from `init` by steps that all meet `ok`. -/
inductive Runs (step : S → L → Option S) (ok : S → L → Prop) (init : S) : S → Prop
  | init : Runs step ok init init
  | step {s s' : S} {l : L} (hs : Runs step ok init s) (hok : ok s l) (h : step s l = some s') :
      Runs step ok init s'

abbrev Reachable (step : S → L → Option S) (init : S) : S → Prop :=
  Runs step (fun _ _ => True) init

variable {step : S → L → Option S} {ok ok' : S → L → Prop} {init s s' : S}

/-- **Invariant rule.** -/
theorem Runs.invariant {P : S → Prop} (hs : Runs step ok init s) (hinit : P init)
    (hstep : ∀ s l s', P s → ok s l → step s l = some s' → P s') : P s := by
  induction hs with
  | init => exact hinit
  | step _ hok h ih => exact hstep _ _ _ ih hok h

variable {ls : List L} {I law : S → Prop}

theorem Runs.steps (hs : Runs step ok init s) (hok : ∀ s l, l ∈ ls → ok s l)
    (h : ls.foldlM step s = some s') : Runs step ok init s' := by
  induction ls generalizing s with
  | nil => cases h; exact hs
  | cons l ls ih =>
    rw [foldlM_cons] at h
    cases hl : step s l with
    | none => rw [hl] at h; cases h
    | some s₁ =>
      rw [hl] at h
      refine ih (hs.step (hok s l mem_cons_self) hl) (fun s l' hl' => ?_) h
      exact hok s l' (mem_cons_of_mem l hl')

theorem Runs.checked [∀ s l, Decidable (ok s l)] (hs : Runs step ok init s) (ls : List L)
    (h : ls.foldlM (fun s l => if ok s l then step s l else none) s = some s') :
    Runs step ok init s' := by
  induction ls generalizing s with
  | nil => cases h; exact hs
  | cons l ls ih =>
    obtain ⟨s₁, hl, h⟩ := bind_eq_some_iff.1 h
    obtain ⟨hok, hl⟩ := ite_none_right_eq_some.1 hl
    exact ih (hs.step hok hl) h

/-- A list of steps, each looked at before it is taken, meets the condition wherever it is split. -/
theorem checked_split [∀ s l, Decidable (ok s l)]
    (h : ls.foldlM (fun s l => if ok s l then step s l else none) init = some s') :
    ls.foldlM step init = some s' ∧ ∀ pre l suf, ls = pre ++ l :: suf →
      ∀ s, pre.foldlM step init = some s → ok s l := by
  induction ls generalizing init with
  | nil => exact ⟨h, fun pre l suf hsplit => absurd hsplit (by simp)⟩
  | cons l₀ ls ih =>
    obtain ⟨s₁, hl, h⟩ := bind_eq_some_iff.1 h
    obtain ⟨hok, hl⟩ := ite_none_right_eq_some.1 hl
    obtain ⟨hrun, hall⟩ := ih h
    refine ⟨?_, fun pre l suf hsplit s hs => ?_⟩
    · rwa [foldlM_cons, hl]
    cases pre with
    | nil =>
      obtain ⟨rfl, -⟩ := List.cons.inj hsplit
      cases hs
      exact hok
    | cons l' pre =>
      obtain ⟨rfl, htail⟩ := List.cons.inj hsplit
      rw [foldlM_cons, hl] at hs
      exact hall pre l suf htail s hs

/-- A law holds after every prefix of a run just if every step meets the condition: in a state with
the invariant, a step leads to the law just if it meets the condition, and then keeps the
invariant. -/
theorem law_iff (hlaw : ∀ s, I s → law s)
    (hstep : ∀ s l s', I s → step s l = some s' → (law s' → ok s l) ∧ (ok s l → I s')) (hs : I s)
    (ls : List L) : (∀ pre suf, ls = pre ++ suf → ∀ s', pre.foldlM step s = some s' → law s') ↔
      ∀ pre l suf, ls = pre ++ l :: suf → ∀ s₁ s₂, pre.foldlM step s = some s₁ →
        step s₁ l = some s₂ → ok s₁ l := by
  induction ls generalizing s with
  | nil =>
    refine ⟨fun _ pre l suf hsplit => absurd hsplit (by simp), fun _ pre suf hsplit s' hrun => ?_⟩
    obtain ⟨rfl, -⟩ := List.append_eq_nil_iff.mp hsplit.symm
    cases hrun
    exact hlaw _ hs
  | cons l ls ih =>
    constructor
    · intro hall pre l' suf hsplit s₁ s₂ hpre hl'
      cases pre with
      | nil =>
        obtain ⟨rfl, -⟩ := List.cons.inj hsplit
        cases hpre
        refine (hstep s l s₂ hs hl').1 (hall [l] ls rfl s₂ ?_)
        rw [foldlM_cons, hl']
        rfl
      | cons x pre =>
        obtain ⟨rfl, htail⟩ := List.cons.inj hsplit
        obtain ⟨s₀, hl, hpre⟩ := bind_eq_some_iff.1 hpre
        have hfirst : law s₀ := by
          refine hall [l] ls rfl s₀ ?_
          rw [foldlM_cons, hl]
          rfl
        obtain ⟨hmeets, hkeeps⟩ := hstep s l s₀ hs hl
        refine (ih (hkeeps (hmeets hfirst))).1 (fun pre suf hsplit s' hrun => ?_) pre l' suf htail
          s₁ s₂
          hpre hl'
        refine hall (l :: pre) suf (by rw [hsplit]; rfl) s' ?_
        rwa [foldlM_cons, hl]
    intro hall pre suf hsplit s' hrun
    cases pre with
    | nil => cases hrun; exact hlaw _ hs
    | cons x pre =>
      obtain ⟨rfl, htail⟩ := List.cons.inj hsplit
      obtain ⟨s₀, hl, hrun⟩ := bind_eq_some_iff.1 hrun
      obtain ⟨-, hkeeps⟩ := hstep s l s₀ hs hl
      refine (ih (hkeeps (hall [] l ls rfl s s₀ rfl hl))).2
        (fun pre l' suf hsplit s₁ s₂ hpre hl' => ?_)
        pre suf htail s' hrun
      refine hall (l :: pre) l' suf (by rw [hsplit]; rfl) s₁ s₂ ?_ hl'
      rwa [foldlM_cons, hl]

/-- Every prefix of a run can be taken and leads to the law just if every step meets the
condition: in a state with the invariant, a step can be taken and leads to the law just if it
meets the condition, and then keeps the invariant. -/
theorem total_law_iff (hlaw : ∀ s, I s → law s)
    (hstep : ∀ s l, I s → ((∃ s', step s l = some s' ∧ law s') ↔ ok s l))
    (hkeep : ∀ s l s', I s → ok s l → step s l = some s' → I s') (hs : I s) (ls : List L) :
    (∀ pre suf, ls = pre ++ suf → ∃ s', pre.foldlM step s = some s' ∧ law s') ↔
      ∀ pre l suf, ls = pre ++ l :: suf → ∀ s₁, pre.foldlM step s = some s₁ → ok s₁ l := by
  induction ls generalizing s with
  | nil =>
    refine ⟨fun _ pre l suf hsplit => absurd hsplit (by simp), fun _ pre suf hsplit => ?_⟩
    obtain ⟨rfl, -⟩ := List.append_eq_nil_iff.mp hsplit.symm
    exact ⟨s, rfl, hlaw s hs⟩
  | cons l ls ih =>
    have hcons : ∀ (pre : List L) {s₁ s' : S}, step s l = some s₁ →
        ((l :: pre).foldlM step s = some s' ↔ pre.foldlM step s₁ = some s') := by
      intro pre s₁ s' hl
      rw [foldlM_cons, hl]
      rfl
    constructor
    · intro hall pre l' suf hsplit s₁ hpre
      obtain ⟨s₀, hfirst, hlaw₀⟩ := hall [l] ls rfl
      have hl : step s l = some s₀ := by
        obtain ⟨s₂, hl, hnil⟩ := bind_eq_some_iff.1 hfirst
        cases hnil
        exact hl
      have hok := (hstep s l hs).1 ⟨s₀, hl, hlaw₀⟩
      cases pre with
      | nil =>
        obtain ⟨rfl, -⟩ := List.cons.inj hsplit
        cases hpre
        exact hok
      | cons x pre =>
        obtain ⟨rfl, htail⟩ := List.cons.inj hsplit
        refine (ih (hkeep s l s₀ hs hok hl)).1 (fun pre suf hsplit => ?_) pre l' suf htail s₁
          ((hcons pre hl).1 hpre)
        obtain ⟨s', hrun, hlaw'⟩ := hall (l :: pre) suf (by rw [hsplit]; rfl)
        exact ⟨s', (hcons pre hl).1 hrun, hlaw'⟩
    intro hall pre suf hsplit
    cases pre with
    | nil => exact ⟨s, rfl, hlaw s hs⟩
    | cons x pre =>
      obtain ⟨rfl, htail⟩ := List.cons.inj hsplit
      have hok := hall [] l ls rfl s rfl
      obtain ⟨s₀, hl, -⟩ := (hstep s l hs).2 hok
      obtain ⟨s', hrun, hlaw'⟩ := (ih (hkeep s l s₀ hs hok hl)).2
        (fun pre l' suf hsplit s₁ hpre => hall (l :: pre) l' suf (by rw [hsplit]; rfl) s₁
          ((hcons pre hl).2 hpre)) pre suf htail
      exact ⟨s', (hcons pre hl).2 hrun, hlaw'⟩

end Lib
