import OpenMama.Common.WList
import OpenMama.Lib.Chain

/-!
# The chain of iterators

The iterators of a list are cells of memory that `list_create_iterator` links in front
of the others and `iterator_destroy` unlinks and frees.  `Registry` is that memory; a
read of a cell that was freed, and a loop that does not end, are none.

The loop of `iterator_destroy` looks for the cell before the iterator and does not go
on from the first cell.  So an iterator is destroyed just if at most one that was
created later is still there (`destroys_iff`), and every other call hangs.
-/

namespace Common

open List Function

namespace WList

structure Registry where
  iterators : Option Nat := none
  next : Nat → Option Nat := fun _ => none
  allocated : Nat → Bool := fun _ => false
  created : Nat := 0

namespace Registry

variable (r : Registry)

/-! ## The code -/

/-- `list_create_iterator`. -/
def createIterator : Registry where
  iterators := some r.created
  next := Function.update r.next r.created r.iterators
  allocated := Function.update r.allocated r.created true
  created := r.created + 1

/-- `free (it)`. -/
def free (it : Nat) : Registry := { r with allocated := Function.update r.allocated it false }

/-- The loop of `iterator_destroy` from a cell; the fuel bounds the passes. -/
def unlink (it : Nat) : Nat → Option Nat → Option Registry
  | 0, _ => none
  | _ + 1, none => some r
  | fuel + 1, some cur =>
    if r.allocated cur then
      if r.next cur = some it then
        some { r with next := Function.update r.next cur (r.next it) }
      else unlink it fuel (some cur)
    else none

/-- `iterator_destroy`. -/
def iteratorDestroy (it : Nat) (fuel : Nat) : Option Registry :=
  if r.allocated it then do
    let r ← if r.iterators = some it then some { r with iterators := r.next it }
      else r.unlink it fuel r.iterators
    some (r.free it)
  else none

/-- The cells that `list_adjust_iterators` goes through from a cell. -/
def adjusted : Nat → Option Nat → Option (List Nat)
  | 0, _ => none
  | _ + 1, none => some []
  | fuel + 1, some cur =>
    if r.allocated cur then do
      let cells ← adjusted fuel (r.next cur)
      some (cur :: cells)
    else none

/-! ## Runs -/

/-- The memory after any creations and destructions of iterators that are there. -/
inductive Reached : Registry → Prop
  | new : Reached {}
  | create {r : Registry} : Reached r → Reached r.createIterator
  | destroy {r r' : Registry} {it fuel : Nat} : Reached r → r.allocated it →
      r.iteratorDestroy it fuel = some r' → Reached r'

/-- The chain consists of those iterators: a walk through it meets each of them once and none that
was freed. -/
def Consists (live : Nat → Prop) : Prop :=
  ∃ fuel cells, r.adjusted fuel r.iterators = some cells ∧ cells.Nodup ∧ ∀ a, a ∈ cells ↔ live a

/-- **The iterator is destroyed**: the call ends and leaves a chain of the others. -/
def Destroys (it : Nat) : Prop :=
  ∃ fuel r', r.iteratorDestroy it fuel = some r' ∧
    r'.Consists fun a => r.allocated a ∧ a ≠ it

/-! ## The chain -/

/-- The memory holds these iterators, the latest first. -/
structure Holds (cells : List Nat) : Prop where
  path : Lib.Path r.next r.iterators cells
  newest : cells.Pairwise (· > ·)
  live : ∀ a, r.allocated a ↔ a ∈ cells
  below : ∀ a ∈ cells, a < r.created

section Chain

variable {r : Registry} {cells rest : List Nat} {it a b : Nat}

theorem adjusted_of_path {p : Option Nat} (h : Lib.Path r.next p cells)
    (hlive : ∀ a ∈ cells, r.allocated a) : r.adjusted (cells.length + 1) p = some cells := by
  induction cells generalizing p with
  | nil => rw [h]; rfl
  | cons a cells ih =>
    obtain ⟨rfl, hrest⟩ := Lib.path_cons.mp h
    have hwalk := ih hrest fun b hb => hlive b (mem_cons_of_mem a hb)
    rw [length_cons]
    rw [adjusted, if_pos (hlive a mem_cons_self), hwalk]
    rfl

/-- **The chain is that of the live iterators**, so a walk meets none that was freed. -/
theorem Holds.consists (h : r.Holds cells) : r.Consists fun a => r.allocated a := by
  refine ⟨cells.length + 1, cells, adjusted_of_path h.path fun a ha => (h.live a).mpr ha, ?_,
    fun a => (h.live a).symm⟩
  exact h.newest.imp fun hab => Nat.ne_of_gt hab

theorem Holds.new : Holds {} [] :=
  ⟨Lib.path_nil.mpr rfl, List.Pairwise.nil, fun a => by simp, fun a ha => absurd ha not_mem_nil⟩

theorem Holds.create (h : r.Holds cells) : r.createIterator.Holds (r.created :: cells) := by
  have hnew : r.created ∉ cells := fun hmem => absurd (h.below _ hmem) (Nat.lt_irrefl _)
  refine ⟨Lib.path_cons.mpr ⟨rfl, ?_⟩, pairwise_cons.mpr ⟨h.below, h.newest⟩, fun a => ?_,
    fun a ha => ?_⟩
  · have hnext : r.createIterator.next r.created = r.iterators := update_self _ _ _
    rw [hnext]
    refine h.path.congr fun a ha => update_of_ne ?_ _ _
    rintro rfl
    exact hnew ha
  · show Function.update r.allocated r.created true a ↔ _
    by_cases ha : a = r.created
    · rw [ha]; simp
    · rw [update_of_ne ha, h.live a]; simp [ha]
  · rcases mem_cons.mp ha with rfl | ha
    · exact Nat.lt_succ_self _
    · exact Nat.lt_succ_of_lt (h.below a ha)

theorem Holds.free (h : r.Holds (cells ++ it :: rest)) {next : Nat → Option Nat}
    {iterators : Option Nat} (hpath : Lib.Path next iterators (cells ++ rest)) :
    ({ r with iterators := iterators, next := next }.free it).Holds (cells ++ rest) := by
  have hsub : (cells ++ rest).Sublist (cells ++ it :: rest) :=
    List.Sublist.append_left (sublist_cons_self it rest) cells
  have hnodup : (cells ++ it :: rest).Nodup := h.newest.imp fun hab => Nat.ne_of_gt hab
  have hout : it ∉ cells ++ rest := (nodup_cons.mp (nodup_middle.mp hnodup)).1
  refine ⟨hpath, h.newest.sublist hsub, fun a => ?_, fun a ha => h.below a (hsub.subset ha)⟩
  show Function.update r.allocated it false a ↔ _
  by_cases ha : a = it
  · rw [ha, update_self]; exact iff_of_false (by decide) hout
  · rw [update_of_ne ha, h.live a]; simp [ha]

theorem Holds.destroy_first (h : r.Holds (it :: rest)) (fuel : Nat) :
    ∃ r', r.iteratorDestroy it fuel = some r' ∧ r'.Holds rest := by
  obtain ⟨hfirst, hrest⟩ := Lib.path_cons.mp h.path
  refine ⟨{ r with iterators := r.next it }.free it, ?_, @Holds.free r [] rest it h _ _ hrest⟩
  rw [iteratorDestroy, if_pos ((h.live it).mpr mem_cons_self), if_pos hfirst]
  rfl

theorem Holds.destroy_second (h : r.Holds (a :: it :: rest)) (fuel : Nat) :
    ∃ r', r.iteratorDestroy it (fuel + 1) = some r' ∧ r'.Holds (a :: rest) := by
  obtain ⟨hfirst, hrest⟩ := Lib.path_cons.mp h.path
  obtain ⟨hnext, htail⟩ := Lib.path_cons.mp hrest
  have hnewer := pairwise_cons.mp h.newest
  have hne : a ≠ it := Nat.ne_of_gt (hnewer.1 it mem_cons_self)
  refine ⟨{ r with next := Function.update r.next a (r.next it) }.free it, ?_,
    @Holds.free r [a] rest it h _ _ (Lib.path_cons.mpr ⟨hfirst, ?_⟩)⟩
  · have hlive : r.allocated a := (h.live a).mpr mem_cons_self
    unfold iteratorDestroy unlink
    rw [if_pos ((h.live it).mpr (by simp)), if_neg (by rw [hfirst]; simpa using hne), hfirst]
    dsimp only
    rw [if_pos hlive, if_pos hnext]
    rfl
  · rw [update_self]
    refine htail.congr fun b hb => update_of_ne ?_ _ _
    exact Nat.ne_of_lt (hnewer.1 b (mem_cons_of_mem it hb))

theorem unlink_hangs (h : r.next a ≠ some it) (fuel : Nat) : r.unlink it fuel (some a) = none := by
  induction fuel with
  | zero => rfl
  | succ fuel ih => rw [unlink, if_neg h, ih, ite_self]

/-- **With two later iterators the call hangs.** -/
theorem Holds.destroy_hangs (h : r.Holds (a :: b :: rest)) (hit : it ∈ rest) (fuel : Nat) :
    r.iteratorDestroy it fuel = none := by
  obtain ⟨hfirst, hrest⟩ := Lib.path_cons.mp h.path
  obtain ⟨hnext, -⟩ := Lib.path_cons.mp hrest
  have hnewer := pairwise_cons.mp h.newest
  have hnewer' := pairwise_cons.mp hnewer.2
  have hlast : it < b := hnewer'.1 it hit
  have hlater : it < a := hnewer.1 it (mem_cons_of_mem b hit)
  unfold iteratorDestroy
  split
  · rw [if_neg (by rw [hfirst]; simp; omega), hfirst, unlink_hangs (by rw [hnext]; simp; omega)]
    rfl
  · rfl

theorem Holds.destroy_out (h : r.Holds (a :: rest)) (hne : it ≠ a) :
    r.iteratorDestroy it 0 = none := by
  obtain ⟨hfirst, -⟩ := Lib.path_cons.mp h.path
  unfold iteratorDestroy
  split
  · rw [if_neg (by rw [hfirst]; simpa using Ne.symm hne)]
    rfl
  · rfl

variable {r' : Registry} {pre : List Nat}

theorem Holds.destroy (h : r.Holds cells) {fuel : Nat} (hit : it ∈ cells)
    (hrun : r.iteratorDestroy it fuel = some r') :
    ∃ pre rest, cells = pre ++ it :: rest ∧ pre.length ≤ 1 ∧ r'.Holds (pre ++ rest) := by
  cases cells with
  | nil => exact absurd hit not_mem_nil
  | cons a cells =>
    by_cases hfirst : it = a
    · subst hfirst
      obtain ⟨r₁, hrun₁, hholds⟩ := h.destroy_first fuel
      rw [Option.some.inj (hrun.symm.trans hrun₁)]
      exact ⟨[], cells, rfl, Nat.zero_le 1, hholds⟩
    cases cells with
    | nil => exact absurd (mem_singleton.mp hit) hfirst
    | cons b rest =>
      by_cases hsecond : it = b
      · subst hsecond
        cases fuel with
        | zero => exact absurd (hrun.symm.trans (h.destroy_out hfirst)) (by simp)
        | succ fuel =>
          obtain ⟨r₁, hrun₁, hholds⟩ := h.destroy_second fuel
          rw [Option.some.inj (hrun.symm.trans hrun₁)]
          exact ⟨[a], rest, rfl, Nat.le_refl 1, hholds⟩
      · have hlater : it ∈ rest := by simpa [hfirst, hsecond] using hit
        exact absurd (hrun.symm.trans (h.destroy_hangs hlater fuel)) (by simp)

/-- **Every memory that is reached holds a list of iterators**, the latest first. -/
theorem holds_of_reached (h : Reached r) : ∃ cells, r.Holds cells := by
  induction h with
  | new => exact ⟨[], Holds.new⟩
  | create _ ih =>
    obtain ⟨cells, hcells⟩ := ih
    exact ⟨_, hcells.create⟩
  | destroy _ hlive hrun ih =>
    obtain ⟨cells, hcells⟩ := ih
    obtain ⟨pre, rest, -, -, hholds⟩ := hcells.destroy ((hcells.live _).mp hlive) hrun
    exact ⟨_, hholds⟩

theorem Holds.later_iff (h : r.Holds (pre ++ it :: rest)) : (r.allocated a ∧ it < a) ↔ a ∈ pre := by
  obtain ⟨-, hrest, hcross⟩ := pairwise_append.mp h.newest
  rw [h.live a, mem_append, mem_cons]
  constructor
  · rintro ⟨hpre | rfl | hmem, hlt⟩
    · exact hpre
    · exact absurd hlt (Nat.lt_irrefl _)
    · exact absurd hlt (Nat.lt_asymm ((pairwise_cons.mp hrest).1 a hmem))
  · intro hpre; exact ⟨.inl hpre, hcross a hpre it mem_cons_self⟩

theorem Holds.position_iff (h : r.Holds cells) (hit : it ∈ cells) :
    (∃ pre rest, cells = pre ++ it :: rest ∧ pre.length ≤ 1) ↔
      ∀ a b, r.allocated a → r.allocated b → it < a → it < b → a = b := by
  constructor
  · rintro ⟨pre, rest, rfl, hlength⟩ a b ha hb hlater hlater'
    have hpre := h.later_iff.mp ⟨ha, hlater⟩
    have hpre' := h.later_iff.mp ⟨hb, hlater'⟩
    cases pre with
    | nil => exact absurd hpre not_mem_nil
    | cons c pre =>
      obtain rfl : pre = [] := eq_nil_of_length_eq_zero (by simpa using hlength)
      rw [mem_singleton.mp hpre, mem_singleton.mp hpre']
  intro hone
  obtain ⟨pre, rest, rfl⟩ := append_of_mem hit
  refine ⟨pre, rest, rfl, ?_⟩
  match pre with
  | [] => exact Nat.zero_le 1
  | [c] => exact Nat.le_refl 1
  | c :: d :: pre =>
    obtain ⟨hc, hlater⟩ := h.later_iff.mpr (show c ∈ c :: d :: pre by simp)
    obtain ⟨hd, hlater'⟩ := h.later_iff.mpr (show d ∈ c :: d :: pre by simp)
    have hgt := (pairwise_cons.mp h.newest).1 d (by simp)
    exact absurd (hone c d hc hd hlater hlater') (Nat.ne_of_gt hgt)

theorem Holds.consists_others (h : r.Holds (pre ++ it :: rest)) (h' : r'.Holds (pre ++ rest)) :
    r'.Consists fun a => r.allocated a ∧ a ≠ it := by
  have hnodup : (pre ++ it :: rest).Nodup := h.newest.imp fun hab => Nat.ne_of_gt hab
  have hout : it ∉ pre ++ rest := (nodup_cons.mp (nodup_middle.mp hnodup)).1
  have hlive : (fun a => r'.allocated a = true) = fun a => r.allocated a ∧ a ≠ it := by
    funext a
    rw [h'.live a, h.live a]
    by_cases ha : a = it
    · simpa [ha] using hout
    · simp [ha]
  rw [← hlive]
  exact h'.consists

end Chain

/-- **When an iterator is destroyed**: at most one that is there was created later.  In every memory
that is reached the chain is that of the live iterators. -/
theorem destroys_iff {r : Registry} (h : Reached r) : (r.Consists fun a => r.allocated a) ∧ ∀ it,
    r.allocated it →
    (r.Destroys it ↔ ∀ a b, r.allocated a → r.allocated b → it < a → it < b → a = b) := by
  obtain ⟨cells, hcells⟩ := holds_of_reached h
  refine ⟨hcells.consists, fun it hlive => ?_⟩
  have hit := (hcells.live it).mp hlive
  rw [← hcells.position_iff hit]
  constructor
  · rintro ⟨fuel, r', hrun, -⟩
    obtain ⟨pre, rest, hsplit, hlength, -⟩ := hcells.destroy hit hrun
    exact ⟨pre, rest, hsplit, hlength⟩
  rintro ⟨pre, rest, rfl, hlength⟩
  match pre with
  | [] =>
    obtain ⟨r', hrun, hholds⟩ := hcells.destroy_first 1
    exact ⟨1, r', hrun, hcells.consists_others hholds⟩
  | [a] =>
    obtain ⟨r', hrun, hholds⟩ := hcells.destroy_second 0
    exact ⟨1, r', hrun, hcells.consists_others hholds⟩

/-- Of two iterators either can be destroyed. -/
theorem destroys_of_two : Destroys (createIterator (createIterator {})) 0 := by
  refine ((destroys_iff (.create (.create .new))).2 0 (by decide)).mpr fun a b ha hb hlater
    hlater' => ?_
  have hbound : ∀ c, (createIterator (createIterator {})).allocated c → 0 < c → c = 1 := by
    intro c hc hpos
    by_contra hne
    exact absurd hc (by simp [createIterator, update_of_ne hne, update_of_ne (Nat.ne_of_gt hpos)])
  rw [hbound a ha hlater, hbound b hb hlater']

/-- The oldest of three cannot. -/
theorem not_destroys : ¬ ∀ (r : Registry) (it : Nat), Reached r → r.allocated it →
    r.Destroys it := by
  intro hall
  obtain ⟨fuel, r', hrun, -⟩ := hall _ 0 (.create (.create (.create .new))) (by decide)
  have hholds := Holds.new.create.create.create
  exact absurd (hrun.symm.trans (hholds.destroy_hangs (by decide) fuel)) (by simp)

end Registry

end WList

end Common
