import Mathlib.Data.List.GetD

/-!
# Ring buffers

A ring is a list of slots with a position that is written next; the position goes on
with every write and comes round at the end.  Its window is the slots from the
position on round to it again, the oldest first.  A write drops the first of the
window and adds one at its end (`window_push`), so that what was written last is at
the end of the window (`window_pushes`).
-/

namespace Lib

open List

/-- The position behind `i`, of `size` in a ring. -/
def ringNext (size i : Nat) : Nat := if i + 1 = size then 0 else i + 1

/-- A list of slots and the position that is written next. -/
structure Ring (α : Type*) where
  slots : List α
  pos : Nat

namespace Ring

variable {α : Type*}

def push (r : Ring α) (a : α) : Ring α := ⟨r.slots.set r.pos a, ringNext r.slots.length r.pos⟩

def window (r : Ring α) : List α := r.slots.drop r.pos ++ r.slots.take r.pos

def indices (r : Ring α) : List Nat :=
  List.range' r.pos (r.slots.length - r.pos) ++ List.range r.pos

def InBounds (r : Ring α) : Prop := r.pos < r.slots.length

variable {r : Ring α}

theorem window_of_zero (h : r.pos = 0) : r.window = r.slots := by simp [window, h]

section

variable (h : r.InBounds)

include h

theorem inBounds_push (a : α) : (r.push a).InBounds := by
  unfold InBounds push ringNext at *
  simp only [length_set]
  split <;> omega

/-- **A write drops the oldest slot of the window and adds one behind it.** -/
theorem window_push (a : α) : (r.push a).window = r.window.tail ++ [a] := by
  obtain ⟨slots, i⟩ := r
  unfold InBounds at h
  dsimp only at h
  have hdrop := drop_eq_getElem_cons h
  have htake : (slots.set i a).take (i + 1) = slots.take i ++ [a] := by
    have hlength : (slots.take i).length = i := length_take_of_le (by omega)
    rw [take_set, take_succ_eq_append_getElem h, set_append_right _ _ (by omega),
      hlength, Nat.sub_self]
    rfl
  unfold push window ringNext
  dsimp only
  rw [hdrop]
  split
  · next hlast =>
    have hall : (slots.set i a).take (i + 1) = slots.set i a :=
      take_of_length_le (by rw [length_set]; omega)
    have hnone : slots.drop (i + 1) = [] := drop_eq_nil_of_le (by omega)
    rw [take_zero, append_nil, ← hall, htake, hnone]
    rfl
  · rw [drop_set_of_lt (by omega), htake, cons_append, tail_cons, append_assoc]

omit h in
theorem length_window (r : Ring α) : r.window.length = r.slots.length := by
  rw [window, length_append, length_drop, length_take]
  omega

/-- **What was written last is at the end of the window.** -/
theorem window_pushes (as : List α) :
    (as.foldl push r).window = (r.window ++ as).drop as.length := by
  induction as generalizing r with
  | nil => simp
  | cons a as ih =>
    have hne : r.window ≠ [] := by
      intro hnil
      have hlength := r.length_window
      rw [hnil] at hlength
      exact absurd h (by unfold InBounds; simp [← hlength])
    obtain ⟨b, bs, hwindow⟩ := exists_cons_of_ne_nil hne
    rw [foldl_cons, ih (inBounds_push h a), window_push h a, hwindow]
    simp

omit h in
theorem length_slots_pushes (r : Ring α) (as : List α) :
    (as.foldl push r).slots.length = r.slots.length :=
  foldlRecOn (motive := fun r' : Ring α => r'.slots.length = r.slots.length) as _ rfl
    fun _ hr _ _ => length_set.trans hr

theorem inBounds_pushes (as : List α) : (as.foldl push r).InBounds :=
  foldlRecOn as _ h fun _ hr a _ => inBounds_push hr a

theorem pos_pushes (as : List α) :
    (as.foldl push r).pos = (r.pos + as.length) % r.slots.length := by
  induction as generalizing r with
  | nil => exact (Nat.mod_eq_of_lt h).symm
  | cons a as ih =>
    have hlength : (r.push a).slots.length = r.slots.length := length_set
    rw [foldl_cons, ih (inBounds_push h a), hlength, length_cons]
    unfold push ringNext
    dsimp only
    split
    · next hlast =>
      have hsum : r.pos + (as.length + 1) = as.length + r.slots.length := by omega
      rw [hsum, Nat.add_mod_right, Nat.zero_add]
    · congr 1
      omega

end

/-! ## Indices -/

theorem map_indices (h : r.pos ≤ r.slots.length) (d : α) :
    r.indices.map (fun i => r.slots.getD i d) = r.window := by
  rw [indices, window, map_append]
  congr 1
  · apply ext_getElem
    · simp
    · intro i h₁ h₂
      rw [length_drop] at h₂
      rw [getElem_map, getElem_range', getElem_drop,
        getD_eq_getElem _ _ (by omega)]
      congr 1
      omega
  · apply ext_getElem
    · simp; omega
    · intro i h₁ h₂
      rw [length_take] at h₂
      rw [getElem_map, getElem_range, getElem_take,
        getD_eq_getElem _ _ (by omega)]

theorem nodup_indices (r : Ring α) : r.indices.Nodup := by
  rw [indices, nodup_append]
  refine ⟨nodup_range', nodup_range, ?_⟩
  intro i hi j hj
  rw [mem_range'_1] at hi
  rw [mem_range] at hj
  omega

def path (r : Ring α) (cur : Nat) : List Nat :=
  if r.pos ≤ cur then List.range' cur (r.slots.length - cur) ++ List.range r.pos
  else List.range' cur (r.pos - cur)

theorem path_pos (r : Ring α) : r.path r.pos = r.indices := if_pos (Nat.le_refl _)

theorem path_zero (h : r.pos ≠ 0) : r.path 0 = List.range r.pos := by
  rw [path, if_neg (by omega), range_eq_range', Nat.sub_zero]

theorem length_path (h : r.InBounds) (cur : Nat) : (r.path cur).length ≤ r.slots.length := by
  unfold InBounds at h
  unfold path
  split
  · rw [length_append, length_range', length_range]; omega
  · rw [length_range']; omega

theorem path_cons (h : r.InBounds) {cur : Nat} (hcur : cur < r.slots.length) :
    r.path cur = cur :: (if ringNext r.slots.length cur = r.pos then []
      else r.path (ringNext r.slots.length cur)) := by
  unfold InBounds at h
  unfold ringNext
  by_cases hlast : cur + 1 = r.slots.length
  · rw [if_pos hlast]
    have hone : r.slots.length - cur = 1 := by omega
    unfold path
    rw [if_pos (by omega), hone]
    by_cases hzero : 0 = r.pos
    · rw [← hzero]; rfl
    · rw [if_neg hzero, if_neg (by omega), range_eq_range']; rfl
  rw [if_neg hlast]
  by_cases hpos : cur + 1 = r.pos
  · have hone : r.pos - cur = 1 := by omega
    rw [path, if_pos hpos, if_neg (by omega), hone]
    rfl
  rw [if_neg hpos]
  unfold path
  by_cases hle : r.pos ≤ cur
  · have hcount : r.slots.length - cur = r.slots.length - (cur + 1) + 1 := by omega
    rw [if_pos hle, if_pos (by omega), hcount]
    rfl
  · have hcount : r.pos - cur = r.pos - (cur + 1) + 1 := by omega
    rw [if_neg hle, if_neg (by omega), hcount, range'_succ]

end Ring

end Lib
