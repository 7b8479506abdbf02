import Mathlib.Data.Fintype.Basic
import OpenMama.Lib.Runs

/-!
# Recursive locks

Threads take and release recursive locks in the order of their programs, and a thread waits for
another one that holds the lock it asks for.  A discipline on the locks that are asked for is
checked on the programs (`Follows`) and holds in every run.  Two locks may be taken in both orders
as long as no two threads cross at them (`Crosses`).
-/

namespace Lib

open Relation List Function Option

variable {ι L : Type}

inductive LockOp (L : Type)
  | acquire (l : L)
  | release (l : L)
  deriving DecidableEq

/-- The locks that a thread holds, each as often as it was taken, and its program. -/
structure Thread (L : Type) where
  held : List L := []
  rest : List (LockOp L)
  deriving DecidableEq

namespace Thread

def asks (t : Thread L) : Option L :=
  match t.rest with
  | .acquire l :: _ => some l
  | _ => none

def next [DecidableEq L] (t : Thread L) : Option (Thread L) :=
  match t.rest with
  | [] => none
  | .acquire l :: rest => some ⟨l :: t.held, rest⟩
  | .release l :: rest => some ⟨t.held.erase l, rest⟩

end Thread

/-! ## Systems of threads -/

/-- A thread takes a step, if no other one holds the lock that it asks for. -/
def lockStep [DecidableEq L] [Fintype ι] [DecidableEq ι] (s : ι → Thread L) (i : ι) :
    Option (ι → Thread L) :=
  if ∀ l ∈ (s i).asks, ∀ j, j ≠ i → l ∉ (s j).held then (s i).next.map (Function.update s i)
  else none

def WaitsFor (s : ι → Thread L) (i j : ι) : Prop :=
  j ≠ i ∧ ∃ l, (s i).asks = some l ∧ l ∈ (s j).held

def Deadlocked (s : ι → Thread L) : Prop := ∃ i, TransGen (WaitsFor s) i i

def Exclusive (s : ι → Thread L) : Prop := ∀ i j l, l ∈ (s i).held → l ∈ (s j).held → i = j

variable {s s' : ι → Thread L} {i : ι} {t t' : Thread L} {l m : L}

theorem Thread.rest_of_asks (h : t.asks = some l) : ∃ rest, t.rest = .acquire l :: rest := by
  unfold Thread.asks at h
  split at h
  · next x rest hrest => cases h; exact ⟨rest, hrest⟩
  · cases h

section

variable [DecidableEq L]

theorem Thread.next_cases (h : t.next = some t') :
    (∃ l, t.rest = .acquire l :: t'.rest ∧ t'.held = l :: t.held) ∨
      ∃ l, t.rest = .release l :: t'.rest ∧ t'.held = t.held.erase l := by
  unfold Thread.next at h
  split at h
  · cases h
  · next l rest hrest => cases h; exact .inl ⟨l, hrest, rfl⟩
  · next l rest hrest => cases h; exact .inr ⟨l, hrest, rfl⟩

variable [Fintype ι] [DecidableEq ι]

theorem lockStep_cases (h : lockStep s i = some s') :
    (∀ l, (s i).asks = some l → ∀ j, j ≠ i → l ∉ (s j).held) ∧
      ∃ t, (s i).next = some t ∧ s' = Function.update s i t := by
  obtain ⟨hfree, h⟩ := ite_none_right_eq_some.1 h
  obtain ⟨t, hnext, rfl⟩ := map_eq_some_iff.1 h
  exact ⟨fun l hasks => hfree l hasks, t, hnext, rfl⟩

theorem Exclusive.step (h : Exclusive s) (hstep : lockStep s i = some s') : Exclusive s' := by
  obtain ⟨hfree, t, hnext, rfl⟩ := lockStep_cases hstep
  -- a lock of the thread that steps is held by no other one
  have hself : ∀ j, j ≠ i → ∀ l ∈ t.held, l ∉ (s j).held := by
    intro j hne l hl hj
    rcases Thread.next_cases hnext with ⟨x, hrest, hheld⟩ | ⟨x, hrest, hheld⟩
    · rw [hheld] at hl
      rcases List.mem_cons.mp hl with rfl | hl
      · refine hfree l ?_ j hne hj
        rw [Thread.asks, hrest]
      · exact hne (h j i l hj hl)
    · rw [hheld] at hl; exact hne (h j i l hj (mem_of_mem_erase hl))
  intro a b l ha hb
  by_cases hai : a = i
  · by_cases hbi : b = i
    · rw [hai, hbi]
    · rw [hai, update_self] at ha
      rw [update_of_ne hbi] at hb
      exact absurd hb (hself b hbi l ha)
  · rw [update_of_ne hai] at ha
    by_cases hbi : b = i
    · rw [hbi, update_self] at hb; exact absurd ha (hself a hai l hb)
    · rw [update_of_ne hbi] at hb; exact h a b l ha hb

end

/-! ## Disciplines -/

section

variable [DecidableEq L]

/-- Every lock that a program takes is allowed with what is then held. -/
def Follows (allowed : List L → L → Prop) : List L → List (LockOp L) → Prop
  | _, [] => True
  | held, .acquire l :: rest => allowed held l ∧ Follows allowed (l :: held) rest
  | held, .release l :: rest => Follows allowed (held.erase l) rest

def heldAfter : List L → List (LockOp L) → List L
  | held, [] => held
  | held, .acquire l :: rest => heldAfter (l :: held) rest
  | held, .release l :: rest => heldAfter (held.erase l) rest

def locked (l : L) (ops : List (LockOp L)) : List (LockOp L) := .acquire l :: (ops ++ [.release l])

variable {allowed : List L → L → Prop} {held : List L} {ops ops' : List (LockOp L)}

theorem heldAfter_append (held : List L) (ops ops' : List (LockOp L)) :
    heldAfter held (ops ++ ops') = heldAfter (heldAfter held ops) ops' := by
  induction ops generalizing held with
  | nil => rfl
  | cons op ops ih => cases op <;> exact ih _

@[simp] theorem heldAfter_locked (held : List L) (l : L) (ops : List (LockOp L)) :
    heldAfter held (locked l ops) = (heldAfter (l :: held) ops).erase l := by
  show heldAfter (l :: held) (ops ++ [.release l]) = _
  rw [heldAfter_append]
  rfl

theorem follows_append : Follows allowed held (ops ++ ops') ↔ Follows allowed held ops ∧
    Follows allowed (heldAfter held ops) ops' := by
  induction ops generalizing held with
  | nil => exact (and_iff_right trivial).symm
  | cons op ops ih =>
    cases op with
    | acquire l =>
      show allowed held l ∧ Follows allowed (l :: held) (ops ++ ops') ↔ _
      rw [ih, ← and_assoc]
      rfl
    | release l => exact ih

@[simp] theorem follows_locked :
    Follows allowed held (locked l ops) ↔ allowed held l ∧ Follows allowed (l :: held) ops := by
  show allowed held l ∧ Follows allowed (l :: held) (ops ++ [.release l]) ↔ _
  rw [follows_append]
  exact and_congr_right fun _ => and_iff_left trivial

theorem follows_flatMap {C : Type} {program : C → List (LockOp L)} {cs : List C}
    (h : ∀ c ∈ cs, Follows allowed [] (program c) ∧ heldAfter [] (program c) = []) :
    Follows allowed [] (cs.flatMap program) := by
  induction cs with
  | nil => trivial
  | cons c cs ih =>
    obtain ⟨hfirst, hafter⟩ := h c mem_cons_self
    rw [flatMap_cons, follows_append, hafter]
    exact ⟨hfirst, ih fun c' hc' => h c' (mem_cons_of_mem c hc')⟩

theorem follows_step [Fintype ι] [DecidableEq ι] (h : ∀ i, Follows allowed (s i).held (s i).rest)
    (hstep : lockStep s i = some s') : ∀ j, Follows allowed (s' j).held (s' j).rest := by
  obtain ⟨-, t, hnext, rfl⟩ := lockStep_cases hstep
  intro j
  by_cases hji : j = i
  · rw [hji, update_self]
    have hself := h i
    rcases Thread.next_cases hnext with ⟨x, hrest, hheld⟩ | ⟨x, hrest, hheld⟩
    · rw [hrest] at hself
      rw [hheld]
      exact hself.2
    · rw [hrest] at hself
      rwa [hheld]
  · rw [update_of_ne hji]; exact h j

/-! ## Crossing threads -/

/-- The program takes the second lock before it releases the first. -/
def under (m l : L) : List L → List (LockOp L) → Bool
  | _, [] => false
  | held, .acquire x :: rest => m ∈ held && (x = l || under m l (x :: held) rest)
  | held, .release x :: rest => m ∈ held && under m l (held.erase x) rest

/-- One thread will take `l` under `m`, and does not hold it; the other one will take `m` under
`l`. -/
def Crosses (l m : L) (t t' : Thread L) : Prop :=
  under m l t.held t.rest ∧ l ∉ t.held ∧ under l m t'.held t'.rest

instance (l m : L) (t t' : Thread L) : Decidable (Crosses l m t t') :=
  inferInstanceAs (Decidable (_ ∧ _ ∧ _))

theorem mem_of_under {held : List L} {rest : List (LockOp L)} (h : under m l held rest) :
    m ∈ held := by
  cases rest with
  | nil => cases h
  | cons op rest =>
    cases op with
    | acquire x => exact of_decide_eq_true (Bool.and_eq_true_iff.mp h).1
    | release x => exact of_decide_eq_true (Bool.and_eq_true_iff.mp h).1

/-- No two threads cross at locks that are taken in both orders. -/
def Apart (both : L → L → Bool) (s : ι → Thread L) : Prop :=
  ∀ i j, i ≠ j → ∀ l m, both l m → ¬ Crosses l m (s i) (s j)

/-- A thread takes a lock only if it then crosses no other one. -/
def TakesApart (both : L → L → Bool) (s : ι → Thread L) (i : ι) : Prop :=
  ∀ x ∈ (s i).asks, ∀ t ∈ (s i).next, ∀ j, j ≠ i →
    ∀ l ∈ t.held ++ (s j).held, ∀ m ∈ t.held ++ (s j).held, both l m →
      ¬ Crosses l m t (s j) ∧ ¬ Crosses l m (s j) t

instance [Fintype ι] [DecidableEq ι] (both : L → L → Bool) (s : ι → Thread L) (i : ι) :
    Decidable (TakesApart both s i) := by
  unfold TakesApart
  infer_instance

theorem TakesApart.not_crosses {both : L → L → Bool} (h : TakesApart both s i) {x : L}
    (hasks : (s i).asks = some x) (hnext : (s i).next = some t) {j : ι} (hj : j ≠ i)
    (hboth : both l m) : ¬ Crosses l m t (s j) ∧ ¬ Crosses l m (s j) t := by
  constructor
  · intro hcross
    have hm : m ∈ t.held ++ (s j).held := mem_append_left _ (mem_of_under hcross.1)
    have hl : l ∈ t.held ++ (s j).held := mem_append_right _ (mem_of_under hcross.2.2)
    exact (h x hasks t hnext j hj l hl m hm hboth).1 hcross
  · intro hcross
    have hm : m ∈ t.held ++ (s j).held := mem_append_right _ (mem_of_under hcross.1)
    have hl : l ∈ t.held ++ (s j).held := mem_append_left _ (mem_of_under hcross.2.2)
    exact (h x hasks t hnext j hj l hl m hm hboth).2 hcross

/-- **Threads that take their locks apart never cross.** -/
theorem Apart.step [Fintype ι] [DecidableEq ι] {both : L → L → Bool} (h : Apart both s)
    (hexclusive : Exclusive s)
    (htakes : TakesApart both s i) (hstep : lockStep s i = some s') : Apart both s' := by
  obtain ⟨-, t, hnext, rfl⟩ := lockStep_cases hstep
  have hself : ∀ j, j ≠ i → ∀ l m, both l m →
      ¬ Crosses l m t (s j) ∧ ¬ Crosses l m (s j) t := by
    intro j hj l m hboth
    rcases Thread.next_cases hnext with ⟨x, hrest, hheld⟩ | ⟨x, hrest, hheld⟩
    · have hasks : (s i).asks = some x := by
        rw [Thread.asks, hrest]
      exact htakes.not_crosses hasks hnext hj hboth
    -- a release: they crossed before it
    have hunder : ∀ {m l : L}, under m l t.held t.rest →
        under m l (s i).held (s i).rest := by
      intro m l hunder
      have hmem := mem_of_under hunder
      rw [hheld] at hmem hunder
      rw [hrest]
      exact Bool.and_eq_true_iff.mpr ⟨decide_eq_true (mem_of_mem_erase hmem), hunder⟩
    constructor
    · rintro ⟨hfirst, -, hsecond⟩
      refine h i j hj.symm l m hboth ⟨hunder hfirst, fun hl => ?_, hsecond⟩
      exact hj (hexclusive j i l (mem_of_under hsecond) hl)
    · rintro ⟨hfirst, hnot, hsecond⟩; exact h j i hj l m hboth ⟨hfirst, hnot, hunder hsecond⟩
  intro a b hab l m hboth
  by_cases ha : a = i
  · have hb : b ≠ i := fun hb => hab (ha.trans hb.symm)
    rw [ha, update_self, update_of_ne hb]
    exact (hself b hb l m hboth).1
  · rw [update_of_ne ha]
    by_cases hb : b = i
    · rw [hb, update_self]; exact (hself a ha l m hboth).2
    · rw [update_of_ne hb]; exact h a b hab l m hboth

end

/-! ## Cycles -/

theorem no_cycle {R : ι → ι → Prop} (rank : ι → Nat)
    (hrank : ∀ h i j k, R h i → R i j → R j k → rank i < rank j) (i : ι) : ¬ TransGen R i i := by
  intro hcycle
  have hup : ∀ {a b}, TransGen R a b → (∃ h, R h a) → (∃ k, R b k) → rank a < rank b := by
    intro a b hab
    induction hab with
    | single hstep => rintro ⟨h, hh⟩ ⟨k, hk⟩; exact hrank h _ _ k hh hstep hk
    | @tail b c hab hstep ih =>
      rintro hbefore ⟨k, hk⟩
      have hless := ih hbefore ⟨c, hstep⟩
      obtain ⟨h, -, hh⟩ := TransGen.tail'_iff.mp hab
      have hless' := hrank h b c k hh hstep hk
      omega
  obtain ⟨j, hfirst, -⟩ := TransGen.head'_iff.mp hcycle
  obtain ⟨h, -, hlast⟩ := TransGen.tail'_iff.mp hcycle
  exact Nat.lt_irrefl _ (hup hcycle ⟨h, hlast⟩ ⟨j, hfirst⟩)

end Lib
