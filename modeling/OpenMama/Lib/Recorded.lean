import Mathlib.Data.List.Induction

/-!
# Runs that are recorded

A step takes a state and an input to a new state and what it records, or fails.  A run
joins what its steps record (`record`).  An invariant of the state and the record that
each step keeps, where the step is promised something of the record so far, holds after
the run, and the run does not fail (`record_inv`); and what no step records from some
state on, the run does not record (`record_quiet`).
-/

namespace Lib

open List

variable {S I E : Type} {step : S → I → Option (S × List E)}

def record (step : S → I → Option (S × List E)) : S → List I → Option (S × List E)
  | s, [] => some (s, [])
  | s, i :: is => (step s i).bind fun (t, es) => (record step t is).map fun (u, fs) => (u, es ++ fs)

variable {es : List E} {is : List I} {s : S}

theorem record_cons_eq_some {u : S} {i : I} : record step s (i :: is) = some (u, es) ↔
      ∃ t fs gs, step s i = some (t, fs) ∧ record step t is = some (u, gs) ∧ es = fs ++ gs := by
  have hcons : record step s (i :: is) = (step s i).bind fun (t, es) =>
      (record step t is).map fun (u, fs) => (u, es ++ fs) := rfl
  rw [hcons]
  constructor
  · intro h
    obtain ⟨⟨t, fs⟩, hi, h⟩ := Option.bind_eq_some_iff.mp h
    obtain ⟨⟨v, gs⟩, his, h⟩ := Option.map_eq_some_iff.mp h
    cases h
    exact ⟨t, fs, gs, hi, his, rfl⟩
  · rintro ⟨t, fs, gs, hi, his, rfl⟩
    rw [hi, Option.bind_some]
    dsimp only
    rw [his]
    rfl

theorem record_append_eq_some {u : S} {js : List I} : record step s (is ++ js) = some (u, es) ↔
      ∃ t fs gs, record step s is = some (t, fs) ∧ record step t js = some (u, gs) ∧
        es = fs ++ gs := by
  induction is generalizing s es with
  | nil =>
    constructor
    · exact fun h => ⟨s, [], es, rfl, h, rfl⟩
    · rintro ⟨t, fs, gs, ⟨⟩, h, rfl⟩; exact h
  | cons i is ih =>
    rw [cons_append, record_cons_eq_some]
    constructor
    · rintro ⟨v, fs, hs, hi, hrest, rfl⟩
      obtain ⟨t, gs, ks, his, hjs, rfl⟩ := ih.mp hrest
      exact ⟨t, fs ++ gs, ks, record_cons_eq_some.mpr ⟨v, fs, gs, hi, his, rfl⟩, hjs,
        (append_assoc fs gs ks).symm⟩
    · rintro ⟨t, fs, ks, his, hjs, rfl⟩
      obtain ⟨v, gs, hs, hi, hrest, rfl⟩ := record_cons_eq_some.mp his
      exact ⟨v, gs, hs ++ ks, hi, ih.mpr ⟨t, hs, ks, hrest, hjs, rfl⟩, append_assoc gs hs ks⟩

theorem record_single {t : S} {i : I} (h : step s i = some (t, es)) :
    record step s [i] = some (t, es) :=
  record_cons_eq_some.mpr ⟨t, es, [], h, rfl, (append_nil es).symm⟩

/-- Each step of a run has what it is promised of the record so far. -/
def Promised (step : S → I → Option (S × List E)) (ok : List E → I → Prop) (s : S)
    (is : List I) : Prop :=
  ∀ before i after t es, is = before ++ i :: after → record step s before = some (t, es) → ok es i

theorem Promised.of_append {ok : List E → I → Prop} {before after : List I}
    (h : Promised step ok s (before ++ after)) : Promised step ok s before := by
  intro before' i after' t es hsplit hrun
  refine h before' i (after' ++ after) t es ?_ hrun
  rw [hsplit, append_assoc]
  rfl

def PromisedFrom (step : S → I → Option (S × List E)) (ok : List E → I → Prop) :
    S → List E → List I → Prop
  | _, _, [] => True
  | s, es, i :: is => ok es i ∧ ∀ t fs, step s i = some (t, fs) →
      PromisedFrom step ok t (es ++ fs) is

theorem promised_of_from {ok : List E → I → Prop} (h : PromisedFrom step ok s [] is) :
    Promised step ok s is := by
  have hfrom : ∀ (before after : List I) (s : S) (es : List E) (i : I) (t : S) (fs : List E),
      PromisedFrom step ok s es (before ++ i :: after) → record step s before = some (t, fs) →
        ok (es ++ fs) i := by
    intro before
    induction before with
    | nil =>
      rintro after s es i t fs hfrom ⟨⟩
      rw [append_nil]
      exact hfrom.1
    | cons j before ih =>
      intro after s es i t fs hfrom hrun
      obtain ⟨u, gs, hs, hj, hrest, rfl⟩ := record_cons_eq_some.mp hrun
      rw [← append_assoc]
      exact ih after u (es ++ gs) i t hs (hfrom.2 u gs hj) hrest
  rintro before i after t es rfl hrun
  exact hfrom before after s [] i t es h hrun

/-- **Run rule.**  An invariant that every promised step keeps holds after the run. -/
theorem record_inv {Inv : S → List E → Prop} {ok : List E → I → Prop} (hstart : Inv s [])
    (hstep : ∀ t es i, Inv t es → ok es i → ∃ u fs, step t i = some (u, fs) ∧ Inv u (es ++ fs))
    (hok : Promised step ok s is) : ∃ t es, record step s is = some (t, es) ∧ Inv t es := by
  induction is using List.reverseRecOn with
  | nil => exact ⟨s, [], rfl, hstart⟩
  | append_singleton is i ih =>
    obtain ⟨t, es, hrun, hinv⟩ := ih hok.of_append
    obtain ⟨u, fs, hi, hinv'⟩ := hstep t es i hinv (hok is i [] t es rfl hrun)
    exact ⟨u, es ++ fs, record_append_eq_some.mpr ⟨t, es, fs, hrun, record_single hi, rfl⟩, hinv'⟩

theorem record_quiet {Q : S → Prop} {P : E → Prop}
    (hstep : ∀ s i t es, Q s → step s i = some (t, es) → Q t ∧ ∀ e ∈ es, P e) {t : S} (hs : Q s)
    (h : record step s is = some (t, es)) : ∀ e ∈ es, P e := by
  induction is generalizing s es with
  | nil => cases h; exact fun _ h => absurd h not_mem_nil
  | cons i is ih =>
    obtain ⟨u, fs, gs, hi, hrest, rfl⟩ := record_cons_eq_some.mp h
    obtain ⟨hu, hfs⟩ := hstep s i u fs hs hi
    intro e he
    rcases List.mem_append.mp he with he | he
    · exact hfs e he
    · exact ih hu hrest e he

end Lib
