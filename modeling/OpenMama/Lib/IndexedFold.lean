import Mathlib.Data.List.Basic

/-!
# Changes that act at one index

A run of partial changes on a family of states `ι → σ` where each change acts at
one index at most.  The run succeeds exactly when it does at every index, on the
changes of that index (`runAt_iff`), so a claim about the family is a claim about
one of its members.
-/

namespace Lib

open Option List

variable {ι σ δ : Type} [DecidableEq ι] (key : δ → Option ι) (step : δ → σ → Option σ)

/-- One change: the state at its index moves, or the change does not fit there. -/
def changeAt (f : ι → σ) (d : δ) : Option (ι → σ) :=
  match key d with
  | none => some f
  | some i => (step d (f i)).map (Function.update f i)

def runAt (ds : List δ) (f : ι → σ) : Option (ι → σ) := ds.foldlM (changeAt key step) f

def run (ds : List δ) (s : σ) : Option σ := ds.foldlM (fun s d => step d s) s

def changesOf (i : ι) (ds : List δ) : List δ := ds.filter fun d => decide (key d = some i)

variable {key step}

@[simp] theorem run_nil (s : σ) : run step [] s = some s := rfl

theorem run_cons (d : δ) (ds : List δ) (s : σ) :
    run step (d :: ds) s = (step d s).bind (run step ds) := rfl

theorem run_append (ds ds' : List δ) (s : σ) :
    run step (ds ++ ds') s = (run step ds s).bind (run step ds') := by
  rw [run, foldlM_append]
  rfl

theorem run_concat (ds : List δ) (d : δ) (s : σ) :
    run step (ds ++ [d]) s = (run step ds s).bind (step d) := by
  rw [run_append]
  congr 1
  funext s'
  rw [run_cons]
  cases step d s' <;> rfl

variable {d : δ} {ds : List δ}

theorem run_concat_eq_some {s s' : σ} :
    run step (ds ++ [d]) s = some s' ↔ ∃ t, run step ds s = some t ∧ step d t = some s' := by
  rw [run_concat, bind_eq_some_iff]

theorem runAt_concat_eq_some {f f' : ι → σ} : runAt key step (ds ++ [d]) f = some f' ↔
      ∃ g, runAt key step ds f = some g ∧ changeAt key step g d = some f' := by
  unfold runAt
  rw [foldlM_append]
  show ((ds.foldlM (changeAt key step) f).bind fun g =>
    (changeAt key step g d).bind fun h => some h) = some f' ↔ _
  rw [bind_eq_some_iff]
  simp

theorem changesOf_append (i : ι) (ds ds' : List δ) :
    changesOf key i (ds ++ ds') = changesOf key i ds ++ changesOf key i ds' :=
  filter_append _ _

theorem changesOf_cons_self {i : ι} (h : key d = some i) (ds : List δ) :
    changesOf key i (d :: ds) = d :: changesOf key i ds :=
  filter_cons_of_pos (by simp [h])

theorem changesOf_cons_ne {i : ι} (h : key d ≠ some i) (ds : List δ) :
    changesOf key i (d :: ds) = changesOf key i ds :=
  filter_cons_of_neg (by simp [h])

theorem key_of_mem_changesOf {i : ι} (h : d ∈ changesOf key i ds) : key d = some i := by
  simpa using (mem_filter.mp h).2

theorem runAt_iff (ds : List δ) (f f' : ι → σ) :
    runAt key step ds f = some f' ↔ ∀ i, run step (changesOf key i ds) (f i) = some (f' i) := by
  induction ds generalizing f with
  | nil =>
    constructor
    · intro h i
      obtain rfl : f = f' := some.inj h
      rfl
    · intro h; exact congrArg some (funext fun i => some.inj (h i))
  | cons d ds ih =>
    have hcons : runAt key step (d :: ds) f =
        (changeAt key step f d).bind (runAt key step ds) := rfl
    rw [hcons]
    cases hkey : key d with
    | none =>
      have hstay : changeAt key step f d = some f := by rw [changeAt, hkey]
      rw [hstay, bind_some, ih]
      refine forall_congr' fun i => ?_
      rw [changesOf_cons_ne (by simp [hkey])]
    | some j =>
      have hchange : changeAt key step f d = (step d (f j)).map (Function.update f j) := by
        rw [changeAt, hkey]
      rw [hchange]
      constructor
      · intro h i
        obtain ⟨g, hg, hrun⟩ := bind_eq_some_iff.mp h
        obtain ⟨s, hs, rfl⟩ := map_eq_some_iff.mp hg
        have hi := (ih (Function.update f j s)).mp hrun i
        by_cases hij : j = i
        · subst hij
          rw [changesOf_cons_self hkey, run_cons, hs]
          simpa using hi
        · rw [changesOf_cons_ne (by simpa [hkey] using hij)]
          rwa [Function.update_of_ne (Ne.symm hij)] at hi
      intro h
      have hj := h j
      rw [changesOf_cons_self hkey, run_cons, bind_eq_some_iff] at hj
      obtain ⟨s, hs, hrun⟩ := hj
      rw [hs, map_some, bind_some, ih]
      intro i
      by_cases hij : j = i
      · subst hij; simpa using hrun
      · have hi := h i
        rw [changesOf_cons_ne (by simpa [hkey] using hij)] at hi
        rwa [Function.update_of_ne (Ne.symm hij)]

theorem exists_foldlM_range {f : σ → Nat → Option σ} {P : Nat → σ → Prop} {n : Nat}
    (hstep : ∀ i s, i < n → P i s → ∃ s', f s i = some s' ∧ P (i + 1) s') {s : σ} (hs : P 0 s) :
    ∃ s', (List.range n).foldlM f s = some s' ∧ P n s' := by
  induction n with
  | zero => exact ⟨s, rfl, hs⟩
  | succ n ih =>
    obtain ⟨s₁, hrun, h₁⟩ := ih fun i s hi => hstep i s (Nat.lt_succ_of_lt hi)
    obtain ⟨s₂, hlast, h₂⟩ := hstep n s₁ (Nat.lt_succ_self n) h₁
    refine ⟨s₂, ?_, h₂⟩
    rw [range_succ, foldlM_append, hrun]
    simp [hlast]

end Lib
