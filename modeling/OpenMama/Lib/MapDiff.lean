import OpenMama.Lib.IndexedFold
import OpenMama.Lib.SortedMap

/-!
# The difference of two maps

An `Edit` changes the value at one key and fits only where it has something to
do: `put` needs a free key, `set` and `drop` a taken one.  `diffSorted` walks two
maps by increasing keys, both at once, and lists the edits that turn the first
into the second (`patch_diffSorted`): one at most for a key, and none where the
maps agree (`editsAt_diffSorted`).
-/

namespace Lib

open SortedMap List

variable {κ ν : Type} [LinearOrder κ]

inductive Edit (ν : Type)
  | put (v : ν)
  | set (v : ν)
  | drop
  deriving DecidableEq, Repr

namespace Edit

/-- What an edit makes of what is there; there is no result where it does not fit. -/
def step : Edit ν → Option ν → Option (Option ν)
  | .put v, none => some (some v)
  | .set v, some _ => some (some v)
  | .drop, some _ => some none
  | _, _ => none

variable [DecidableEq ν]

/-- The edit that turns one into the other, where they differ. -/
def between : Option ν → Option ν → Option (Edit ν)
  | none, none => none
  | none, some v => some (.put v)
  | some _, none => some .drop
  | some u, some v => if u = v then none else some (.set v)

theorem run_between (a b : Option ν) : run step (between a b).toList a = some b := by
  cases a with
  | none => cases b <;> rfl
  | some u =>
    cases b with
    | none => rfl
    | some v =>
      by_cases huv : u = v
      · have hnone : between (some u) (some v) = none := if_pos huv
        rw [hnone, huv]
        rfl
      · have hset : between (some u) (some v) = some (.set v) := if_neg huv
        rw [hset]
        rfl

end Edit

def diffSorted [DecidableEq ν] : List (κ × ν) → List (κ × ν) → List (κ × Edit ν)
  | [], r => r.map fun a => (a.1, .put a.2)
  | l, [] => l.map fun a => (a.1, .drop)
  | (k, u) :: l, (k', v) :: r =>
    if k = k' then
      if u = v then diffSorted l r else (k, .set v) :: diffSorted l r
    else if k' < k then (k', .put v) :: diffSorted ((k, u) :: l) r
    else (k, .drop) :: diffSorted l ((k', v) :: r)
termination_by l r => l.length + r.length

theorem diffSorted_nil_left [DecidableEq ν] (r : List (κ × ν)) :
    diffSorted [] r = r.map fun a => (a.1, .put a.2) := by
  rw [diffSorted]

theorem diffSorted_nil_right [DecidableEq ν] (l : List (κ × ν)) :
    diffSorted l [] = l.map fun a => (a.1, .drop) := by
  cases l with
  | nil => rw [diffSorted]; rfl
  | cons a l => rw [diffSorted]; exact cons_ne_nil a l

/-- Applies edits to a map that is given as a function. -/
def patch (es : List (κ × Edit ν)) (f : κ → Option ν) : Option (κ → Option ν) :=
  runAt (fun a : κ × Edit ν => some a.1) (fun a => a.2.step) es f

def editsAt (k : κ) (es : List (κ × Edit ν)) : List (κ × Edit ν) :=
  changesOf (fun a : κ × Edit ν => some a.1) k es

theorem editsAt_cons (k : κ) (a : κ × Edit ν) (es : List (κ × Edit ν)) :
    editsAt k (a :: es) = if k = a.1 then a :: editsAt k es else editsAt k es := by
  by_cases hk : k = a.1
  · rw [if_pos hk]; exact changesOf_cons_self (by rw [hk]) es
  · rw [if_neg hk]; exact changesOf_cons_ne (by simpa using Ne.symm hk) es

theorem editsAt_map {l : List (κ × ν)} (hl : l.Pairwise fun a b => a.1 < b.1) (f : ν → Edit ν)
    (k : κ) : editsAt k (l.map fun a => (a.1, f a.2)) =
      ((findList k l).map fun v => (k, f v)).toList := by
  induction l with
  | nil => rfl
  | cons a l ih =>
    obtain ⟨k', v⟩ := a
    obtain ⟨hlt, hl⟩ := pairwise_cons.mp hl
    rw [map_cons, editsAt_cons, ih hl, findList]
    by_cases hk : k = k'
    · have hnone : findList k l = none := findList_eq_none fun a ha => by
        rw [hk]; exact (hlt a ha).ne
      rw [if_pos hk, if_pos hk, hnone, hk]
      rfl
    · rw [if_neg hk, if_neg hk]

theorem findList_lt {l : List (κ × ν)} {k : κ} (h : ∀ a ∈ l, k < a.1) : findList k l = none :=
  findList_eq_none fun a ha => (h a ha).ne

variable [DecidableEq ν]

theorem editsAt_diffSorted (l r : List (κ × ν)) (hl : l.Pairwise fun a b => a.1 < b.1)
    (hr : r.Pairwise fun a b => a.1 < b.1) (k : κ) :
    editsAt k (diffSorted l r) =
      ((Edit.between (findList k l) (findList k r)).map fun e => (k, e)).toList := by
  induction l, r using diffSorted.induct with
  | case1 r =>
    rw [diffSorted_nil_left, editsAt_map hr]
    cases findList k r <;> rfl
  | case2 l hne =>
    rw [diffSorted_nil_right, editsAt_map hl fun _ => .drop]
    cases findList k l <;> rfl
  | case3 l k₁ u r ih =>
    obtain ⟨hlt, hl⟩ := pairwise_cons.mp hl
    obtain ⟨hlt', hr⟩ := pairwise_cons.mp hr
    rw [diffSorted, if_pos rfl, if_pos rfl, ih hl hr, findList, findList]
    by_cases hk : k = k₁
    · have hsame : Edit.between (some u) (some u) = none := if_pos rfl
      rw [hk, findList_lt hlt, findList_lt hlt', if_pos rfl, hsame]
      rfl
    · rw [if_neg hk, if_neg hk]
  | case4 u l k₁ v r huv ih =>
    obtain ⟨hlt, hl⟩ := pairwise_cons.mp hl
    obtain ⟨hlt', hr⟩ := pairwise_cons.mp hr
    rw [diffSorted, if_pos rfl, if_neg huv, editsAt_cons, ih hl hr, findList, findList]
    by_cases hk : k = k₁
    · have hset : Edit.between (some u) (some v) = some (.set v) := if_neg huv
      rw [hk, findList_lt hlt, findList_lt hlt', if_pos rfl, if_pos rfl, if_pos rfl, hset]
      rfl
    · rw [if_neg hk, if_neg hk, if_neg hk]
  | case5 k₁ u l k₂ v r hne hless ih =>
    obtain ⟨hlt, -⟩ := pairwise_cons.mp hl
    obtain ⟨hlt', hr⟩ := pairwise_cons.mp hr
    have habove : ∀ a ∈ (k₁, u) :: l, k₂ < a.1 := by
      intro a ha
      rcases mem_cons.mp ha with rfl | ha
      · exact hless
      · exact hless.trans (hlt a ha)
    have hr₂ : findList k ((k₂, v) :: r) = if k = k₂ then some v else findList k r := rfl
    rw [diffSorted, if_neg hne, if_pos hless, editsAt_cons, ih hl hr, hr₂]
    by_cases hk : k = k₂
    · rw [if_pos hk, if_pos hk, hk, findList_lt habove, findList_lt hlt']; rfl
    · rw [if_neg hk, if_neg hk]
  | case6 k₁ u l k₂ v r hne hless ih =>
    obtain ⟨hlt, hl⟩ := pairwise_cons.mp hl
    obtain ⟨hlt', -⟩ := pairwise_cons.mp hr
    have hless' : k₁ < k₂ := lt_of_le_of_ne (not_lt.mp hless) hne
    have habove : ∀ a ∈ (k₂, v) :: r, k₁ < a.1 := by
      intro a ha
      rcases mem_cons.mp ha with rfl | ha
      · exact hless'
      · exact hless'.trans (hlt' a ha)
    have hl₁ : findList k ((k₁, u) :: l) = if k = k₁ then some u else findList k l := rfl
    rw [diffSorted, if_neg hne, if_neg hless, editsAt_cons, ih hl hr, hl₁]
    by_cases hk : k = k₁
    · rw [if_pos hk, if_pos hk, hk, findList_lt habove, findList_lt hlt]; rfl
    · rw [if_neg hk, if_neg hk]

theorem patch_diffSorted (l r : List (κ × ν)) (hl : l.Pairwise fun a b => a.1 < b.1)
    (hr : r.Pairwise fun a b => a.1 < b.1) :
    patch (diffSorted l r) (fun k => findList k l) = some fun k => findList k r := by
  refine (runAt_iff _ _ _).mpr fun k => ?_
  have hedits := editsAt_diffSorted l r hl hr k
  have hrun := Edit.run_between (findList k l) (findList k r)
  unfold editsAt at hedits
  rw [hedits]
  cases hb : Edit.between (findList k l) (findList k r) with
  | none => rwa [hb] at hrun
  | some e => rwa [hb] at hrun

end Lib
