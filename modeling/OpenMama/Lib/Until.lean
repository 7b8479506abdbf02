import Mathlib.Data.List.Basic
import Mathlib.Data.List.Induction

/-!
# Promises that hold until an event

A run folds a step over a list of events.  `Until` says that each event keeps a
promise, up to the first one that ends it.  A promise is shown by a property of the
run so far that each event keeps as well (`until_of`), and it is read off at any
event that no end comes before (`Until.at`).  Two laws on the events of a run that agree
as long as an invariant is kept agree on the run (`forall_split_iff`).
-/

namespace Lib

open List

variable {S M : Type} {step : S → M → S} {ends keeps : S → M → Prop}

variable {ms pre : List M}

theorem exists_of_concat_eq {qre rest : List M} {m n : M} (h : pre ++ [m] = qre ++ n :: rest) :
    ∃ before, n :: rest = before ++ [m] ∧ pre = qre ++ before := by
  rcases eq_nil_or_concat rest with rfl | ⟨rest', k, rfl⟩
  · obtain ⟨hpre, hm⟩ := append_inj' h rfl
    exact ⟨[], hm.symm, by rw [hpre, append_nil]⟩
  · rw [concat_eq_append] at h ⊢
    have hsplit : pre ++ [m] = (qre ++ n :: rest') ++ [k] := by
      rw [h, append_assoc]; rfl
    obtain ⟨hpre, hm⟩ := append_inj' hsplit rfl
    exact ⟨n :: rest', by rw [hm]; rfl, hpre⟩

/-- Each event keeps the promise, up to the first that ends it. -/
def Until (step : S → M → S) (ends keeps : S → M → Prop) : S → List M → Prop
  | _, [] => True
  | s, m :: ms => ends s m ∨ (keeps s m ∧ Until step ends keeps (step s m) ms)

def NoEnd (step : S → M → S) (ends : S → M → Prop) (s : S) (ms : List M) : Prop :=
  ∀ pre m suf, ms = pre ++ m :: suf → ¬ ends (pre.foldl step s) m

theorem until_of {s : S} {P : List M → Prop} (hnil : P [])
    (hstep : ∀ pre m suf, ms = pre ++ m :: suf → P pre → ¬ ends (pre.foldl step s) m →
      keeps (pre.foldl step s) m ∧ P (pre ++ [m])) :
    Until step ends keeps s ms := by
  have hrest : ∀ suf pre, ms = pre ++ suf → P pre →
      Until step ends keeps (pre.foldl step s) suf := by
    intro suf
    induction suf with
    | nil => exact fun _ _ _ => trivial
    | cons m suf ih =>
      intro pre hms hP
      by_cases hends : ends (pre.foldl step s) m
      · exact .inl hends
      · obtain ⟨hkeeps, hnext⟩ := hstep pre m suf hms hP hends
        have htail := ih (pre ++ [m]) (by rw [hms, append_assoc]; rfl) hnext
        rw [foldl_concat] at htail
        exact .inr ⟨hkeeps, htail⟩
  exact hrest ms [] rfl hnil

theorem Until.at {s : S} {m : M} {suf : List M} (h : Until step ends keeps s (pre ++ m :: suf))
    (hpre : NoEnd step ends s pre) : ends (pre.foldl step s) m ∨ keeps (pre.foldl step s) m := by
  induction pre generalizing s with
  | nil => exact h.imp_right And.left
  | cons n pre ih =>
    rcases h with hends | ⟨-, hrest⟩
    · exact (hpre [] n pre rfl hends).elim
    · exact ih hrest fun qre k rest hq => hpre (n :: qre) k rest (congrArg (n :: ·) hq)

/-- Two laws on the events of a run are the same, where they are the same at each event of a run
that has kept an invariant, and the first keeps it. -/
theorem forall_split_iff {I : List M → Prop} {A B : List M → M → Prop} (hnil : I [])
    (hsame : ∀ pre m suf, ms = pre ++ m :: suf → I pre → (A pre m ↔ B pre m))
    (hkeep : ∀ pre m suf, ms = pre ++ m :: suf → I pre → A pre m → I (pre ++ [m])) :
    (∀ pre m suf, ms = pre ++ m :: suf → A pre m) ↔
      ∀ pre m suf, ms = pre ++ m :: suf → B pre m := by
  have hinv : (∀ pre m suf, ms = pre ++ m :: suf → I pre → A pre m) →
      ∀ pre suf, ms = pre ++ suf → I pre := by
    intro hall pre
    induction pre using List.reverseRecOn with
    | nil => exact fun _ _ => hnil
    | append_singleton pre m ih =>
      intro suf hms
      have hms' : ms = pre ++ m :: suf := by rw [hms, append_assoc]; rfl
      have hpre := ih (m :: suf) hms'
      exact hkeep pre m suf hms' hpre (hall pre m suf hms' hpre)
  constructor
  · intro hall pre m suf hms
    have hpre := hinv (fun pre m suf hms _ => hall pre m suf hms) pre (m :: suf) hms
    exact (hsame pre m suf hms hpre).mp (hall pre m suf hms)
  · intro hall pre m suf hms
    have hpre := hinv (fun pre m suf hms h => (hsame pre m suf hms h).mpr (hall pre m suf hms))
      pre (m :: suf) hms
    exact (hsame pre m suf hms hpre).mpr (hall pre m suf hms)

end Lib
