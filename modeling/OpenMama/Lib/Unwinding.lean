import Mathlib.Init

/-!
# Inputs that leave no trace

A run is watched at some of its inputs (`transcript`).  Where a relation of the states is
kept by the inputs that are removed, on one side, and by the others on both sides, and
what is seen at related states is the same, then the run and the run without the inputs
that are removed are seen alike (`transcript_filter`).  An input that breaks the relation
does no harm if nothing is seen after it.
-/

namespace Lib

open List

variable {S M O : Type}

def transcript (step : S → M → S) (out : S → M → O) (seen : M → Bool) : S → List M → List O
  | _, [] => []
  | s, m :: ms =>
    if seen m then out s m :: transcript step out seen (step s m) ms
    else transcript step out seen (step s m) ms

variable {ms : List M} {s : S}

section Transcript

variable {step : S → M → S} {out : S → M → O} {seen : M → Bool}

theorem transcript_cons_seen {m : M} (hm : seen m) (s : S) (ms : List M) :
    transcript step out seen s (m :: ms) = out s m :: transcript step out seen (step s m) ms := by
  simp [transcript, hm]

theorem transcript_cons_unseen {m : M} (hm : seen m = false) (s : S) (ms : List M) :
    transcript step out seen s (m :: ms) = transcript step out seen (step s m) ms := by
  simp [transcript, hm]

theorem transcript_eq_nil (h : ∀ m ∈ ms, seen m = false) : transcript step out seen s ms = [] := by
  induction ms generalizing s with
  | nil => rfl
  | cons m ms ih =>
    rw [transcript_cons_unseen (h m mem_cons_self)]; exact ih fun n hn => h n (mem_cons_of_mem m hn)

/-- **Unwinding rule.**  A run is seen as the run of the inputs that are kept is. -/
theorem transcript_filter {R : S → S → Prop} {keep : M → Bool}
    (hdrop : ∀ m, keep m = false → seen m = false)
    (hkeep : ∀ s t m, R s t → keep m → R (step s m) (step t m))
    (hout : ∀ s t m, R s t → seen m → out s m = out t m) {t : S} (hst : R s t)
    (hms : ∀ before m after, ms = before ++ m :: after → keep m = false →
      (∀ u, R (before.foldl step s) u → R (step (before.foldl step s) m) u) ∨
        ∀ n ∈ after, seen n = false) :
    transcript step out seen s ms = transcript step out seen t (ms.filter keep) := by
  induction ms generalizing s t with
  | nil => rfl
  | cons m ms ih =>
    have hrest : ∀ before n after, ms = before ++ n :: after → keep n = false →
        (∀ u, R (before.foldl step (step s m)) u → R (step (before.foldl step (step s m)) n) u) ∨
          ∀ k ∈ after, seen k = false := by
      intro before n after hsplit hn
      exact hms (m :: before) n after (by rw [hsplit]; rfl) hn
    cases hm : keep m with
    | true =>
      rw [filter_cons_of_pos hm]
      have htail := ih (hkeep s t m hst hm) hrest
      cases hsee : seen m with
      | true =>
        rw [transcript_cons_seen hsee, transcript_cons_seen hsee, hout s t m hst hsee, htail]
      | false => rw [transcript_cons_unseen hsee, transcript_cons_unseen hsee, htail]
    | false =>
      rw [filter_cons_of_neg (by rw [hm]; exact Bool.false_ne_true),
        transcript_cons_unseen (hdrop m hm)]
      rcases hms [] m ms rfl hm with h | h
      · exact ih (h t hst) hrest
      · rw [transcript_eq_nil h]
        exact (transcript_eq_nil fun n hn => h n (List.mem_filter.mp hn).1).symm

end Transcript

section Simulation

variable {T : Type} {step : S → M → S} {step' : T → M → T} {out : S → M → O} {out' : T → M → O}

/-- Every input of a run meets a condition in the state that it finds. -/
def Along (step : S → M → S) (ok : S → M → Prop) : S → List M → Prop
  | _, [] => True
  | s, m :: ms => ok s m ∧ Along step ok (step s m) ms

/-- Inputs that are looked at by a decidable condition. -/
instance decidableAlong (ok : S → M → Prop) [∀ s m, Decidable (ok s m)] :
    ∀ (s : S) (ms : List M), Decidable (Along step ok s ms)
  | _, [] => isTrue trivial
  | s, m :: ms =>
    have := decidableAlong ok (step s m) ms
    inferInstanceAs (Decidable (ok s m ∧ Along step ok (step s m) ms))

variable {f : S → T}

theorem transcript_image {seen : M → Bool} (hstep : ∀ s m, f (step s m) = step' (f s) m)
    (hout : ∀ s m, out s m = out' (f s) m) (s : S) (ms : List M) :
    transcript step out seen s ms = transcript step' out' seen (f s) ms := by
  induction ms generalizing s with
  | nil => rfl
  | cons m ms ih =>
    unfold transcript
    rw [ih (step s m), hstep, hout]

/-- **Unwinding rule for two machines.**  One machine takes all the inputs, each of which meets a
condition, the other one takes those that are kept.  A relation that the kept inputs keep on both
sides, and the others on one side, holds in the end, and the kept inputs are seen alike. -/
theorem transcript_simulates {R : S → T → Prop} {ok : S → M → Prop} {keep : M → Bool}
    (hkeep : ∀ s t m, R s t → ok s m → keep m → R (step s m) (step' t m) ∧ out s m = out' t m)
    (hdrop : ∀ s t m, R s t → ok s m → keep m = false → R (step s m) t) {t : T} (hst : R s t)
    (hms : Along step ok s ms) :
    transcript step out keep s ms = transcript step' out' keep t (ms.filter keep) ∧
      R (ms.foldl step s) ((ms.filter keep).foldl step' t) := by
  induction ms generalizing s t with
  | nil => exact ⟨rfl, hst⟩
  | cons m ms ih =>
    obtain ⟨hok, hrest⟩ := hms
    cases hm : keep m with
    | true =>
      obtain ⟨hR, hout⟩ := hkeep s t m hst hok hm
      obtain ⟨hseen, hend⟩ := ih hR hrest
      rw [filter_cons_of_pos hm, transcript_cons_seen hm, transcript_cons_seen hm, hout, hseen]
      exact ⟨rfl, hend⟩
    | false =>
      obtain ⟨hseen, hend⟩ := ih (hdrop s t m hst hok hm) hrest
      rw [filter_cons_of_neg (by rw [hm]; exact Bool.false_ne_true),
        transcript_cons_unseen hm, hseen]
      exact ⟨rfl, hend⟩

end Simulation

end Lib
