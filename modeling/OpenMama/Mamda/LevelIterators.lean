import OpenMama.Lib.Cursor
import OpenMama.Mamda.OrderBookWriter

/-!
# The level iterators of the book

`bidIterator` and `askIterator` walk the levels of one half of the book and pass
over those of size zero.  The two are copies of each other, bids going through
the map backwards, so a half with its levels in the order of its iterators
(`Book.walked`) is all that tells them apart.

An iterator keeps the bounds of its half beside its place.  The assignment takes
over the place and the end but not the begin bound, and `--` stops at that bound
whatever the level there holds.

* `visits_levels`: `++` visits the levels that have a size, once each.
* `iteratesLevels_iff`: when `--` and assigned iterators do what they should.
-/

namespace Mamda

open Mama Lib Option List

/-- A `PlMap::iterator`, as an index in the order of the iterator; `none` for one that is at no
place of this map: an iterator of another map or one that was never set. -/
abbrev MapPos := Option Nat

/-- `bidIteratorImpl` and `askIteratorImpl`. -/
structure LevelIterator where
  plMapIter : MapPos
  plMapEnd : MapPos
  plMapBegin : MapPos
  deriving DecidableEq

/-- `++` and `--`. -/
inductive Move
  | next
  | prev
  deriving DecidableEq

namespace LevelIterator

/-- `operator=`: the begin bound stays that of the iterator assigned to. -/
def assign (x rhs : LevelIterator) : LevelIterator :=
  { x with plMapIter := rhs.plMapIter, plMapEnd := rhs.plMapEnd }

def copy (rhs : LevelIterator) : LevelIterator := rhs

end LevelIterator

namespace Book

/-- The levels of a half with the prices they are kept under, in the order of its iterators: bids
from the highest price down, asks from the lowest up. -/
def walked (b : Book) : BookSide → List (Price × PriceLevel)
  | .bid => b.levels.bid.toList.reverse
  | .ask => b.levels.ask.toList

/-- `getSize () != 0`. -/
def hasSize (a : Price × PriceLevel) : Bool := a.2.size != 0

/-- Whether there is a level with a size at this place. -/
def sizedAt (b : Book) (s : BookSide) (i : Nat) : Bool := holdsAt hasSize (b.walked s) i

def stopsAt (b : Book) (s : BookSide) (bound : MapPos) (i : Nat) : Bool :=
  decide (bound = some i) || b.sizedAt s i

/-- `bidEnd` and `askEnd`. -/
def endIter (b : Book) (s : BookSide) : LevelIterator :=
  ⟨some (b.walked s).length, some (b.walked s).length, some 0⟩

/-- `bidBegin` and `askBegin`. -/
def beginIter (b : Book) (s : BookSide) : LevelIterator :=
  let n := (b.walked s).length
  { b.endIter s with
    plMapIter := firstStop (b.stopsAt s (some n)) n }

/-- `operator++`; none where the iterator leaves the map. -/
def nextIter (b : Book) (s : BookSide) (x : LevelIterator) : Option LevelIterator :=
  if x.plMapIter = x.plMapEnd then some x
  else do
    let i ← x.plMapIter
    let j ← advance (b.stopsAt s x.plMapEnd) ((b.walked s).length - i) i
    pure { x with plMapIter := some j }

/-- `operator--`. -/
def prevIter (b : Book) (s : BookSide) (x : LevelIterator) : Option LevelIterator :=
  if x.plMapIter = x.plMapBegin then some x
  else do
    let i ← x.plMapIter
    let j ← retreat (b.stopsAt s x.plMapBegin) i
    pure { x with plMapIter := some j }

def moveIter (b : Book) (s : BookSide) (x : LevelIterator) : Move → Option LevelIterator
  | .next => b.nextIter s x
  | .prev => b.prevIter s x

def moveIters (b : Book) (s : BookSide) (x : LevelIterator) (ms : List Move) :
    Option LevelIterator := ms.foldlM (b.moveIter s) x

/-- `operator*`, with the price the level is kept under. -/
def deref (b : Book) (s : BookSide) (x : LevelIterator) : Option (Price × PriceLevel) :=
  x.plMapIter.bind fun i => (b.walked s)[i]?

/-- `for (iter = begin; iter != end; ++iter)`. -/
def iterate (b : Book) (s : BookSide) (fuel : Nat) : Option (List (Price × PriceLevel)) :=
  walk (fun x => decide (x.plMapIter = (b.endIter s).plMapIter)) (b.deref s) (b.nextIter s) fuel
    (b.beginIter s)

def shown (b : Book) (s : BookSide) : List (Price × PriceLevel) := (b.walked s).filter hasSize

/-- An iterator of this half at place `i`. -/
def iterAt (b : Book) (s : BookSide) (i : Nat) : LevelIterator :=
  { b.endIter s with plMapIter := some i }

/-! ## Forwards -/

variable {i : Nat}

section Forwards

variable (b : Book) (s : BookSide)

theorem stopsAt_end (i : Nat) :
    b.stopsAt s (some (b.walked s).length) i =
      (decide (i = (b.walked s).length) || holdsAt hasSize (b.walked s) i) := by
  have heq : ((some (b.walked s).length : MapPos) = some i) ↔ i = (b.walked s).length := by
    rw [Option.some.injEq]; exact eq_comm
  rw [stopsAt, sizedAt, decide_eq_decide.mpr heq]

theorem nextIter_iterAt (hi : i < (b.walked s).length) : b.nextIter s (b.iterAt s i) =
      (advance (b.stopsAt s (some (b.walked s).length)) ((b.walked s).length - i) i).map
        (b.iterAt s) := by
  have hne : (b.iterAt s i).plMapIter ≠ (b.iterAt s i).plMapEnd := by
    intro h
    have := some.inj h
    omega
  rw [nextIter, if_neg hne]
  show ((advance (b.stopsAt s (some (b.walked s).length)) ((b.walked s).length - i) i).bind
    fun j => some (b.iterAt s j)) = _
  cases advance (b.stopsAt s (some (b.walked s).length)) ((b.walked s).length - i) i <;> rfl

theorem nextIter_end : b.nextIter s (b.endIter s) = some (b.endIter s) := if_pos rfl

theorem exists_begin : ∃ i, b.beginIter s = b.iterAt s i ∧ i ≤ (b.walked s).length ∧
    b.stopsAt s (some (b.walked s).length) i ∧ ∀ k, k < i → b.sizedAt s k = false := by
  have hend : b.stopsAt s (some (b.walked s).length) (b.walked s).length := by
    rw [stopsAt_end]; simp
  obtain ⟨i, hfirst, hle, hstop, hbefore⟩ := exists_firstStop hend
  refine ⟨i, ?_, hle, hstop, fun k hk => (Bool.or_eq_false_iff.mp (hbefore k hk)).2⟩
  simp only [beginIter, hfirst]
  rfl

/-- From a level with a size, or from the end, `++` visits the levels with a size that are left. -/
theorem visits_iterAt (hi : i ≤ (b.walked s).length)
    (hstop : b.stopsAt s (some (b.walked s).length) i) :
    Visits (fun x => decide (x.plMapIter = (b.endIter s).plMapIter)) (b.deref s) (b.nextIter s)
      (b.iterAt s i) (((b.walked s).drop i).filter hasSize) := by
  refine visits_filter (b.stopsAt s (some (b.walked s).length)) (b.iterAt s)
    (fun k _ => b.stopsAt_end s k) (fun k _ => ?_) (fun k _ => rfl)
    (fun k hk => b.nextIter_iterAt s hk) hi hstop
  exact decide_eq_decide.mpr some_inj

theorem visits_levels : b.iterate s ((b.walked s).length + 1) = some (b.shown s) := by
  obtain ⟨i, hbegin, hi, hstop, hbefore⟩ := b.exists_begin s
  have hvisits := b.visits_iterAt s hi hstop
  have hshown : ((b.walked s).drop i).filter hasSize = b.shown s := by
    have := filter_drop_of_not (p := hasSize) (Nat.zero_le i) hi fun k _ hk => hbefore k hk
    rw [← this]
    rfl
  rw [iterate, hbegin, ← hshown]
  refine hvisits.walk_eq ?_
  have h₁ := length_filter_le hasSize ((b.walked s).drop i)
  have h₂ : ((b.walked s).drop i).length ≤ (b.walked s).length := by
    rw [length_drop]; omega
  omega

def Better : BookSide → Price → Price → Prop
  | .bid, p, q => q < p
  | .ask, p, q => p < q

theorem pairwise_walked : (b.walked s).Pairwise fun a c => Better s a.1 c.1 := by
  cases s with
  | bid => exact pairwise_reverse.mpr b.levels.bid.sorted
  | ask => exact b.levels.ask.sorted

theorem pairwise_shown : (b.shown s).Pairwise fun a c => Better s a.1 c.1 :=
  (b.pairwise_walked s).filter _

variable {l : PriceLevel} {p : Price}

theorem mem_walked : (p, l) ∈ b.walked s ↔ b.findLevel s p = some l := by
  cases s with
  | bid => exact mem_reverse.trans SortedMap.mem_toList
  | ask => exact SortedMap.mem_toList

theorem mem_shown : (p, l) ∈ b.shown s ↔ b.findLevel s p = some l ∧ l.size ≠ 0 := by
  rw [shown, mem_filter, mem_walked, hasSize, bne_iff_ne]

end Forwards

/-! ## Backwards -/

section Backwards

variable (b : Book) (s : BookSide)

/-- Where `--` should go from place `i`: to the level with a size before it; where there is none
before it, to the first level with a size; and nowhere in a half without one. -/
def IsBack (i j : Nat) : Prop :=
  (j < i ∧ b.sizedAt s j ∧ ∀ k, j < k → k < i → b.sizedAt s k = false) ∨
  ((∀ k, k < i → b.sizedAt s k = false) ∧ b.sizedAt s j ∧
    ∀ k, k < j → b.sizedAt s k = false) ∨
  ((∀ k, b.sizedAt s k = false) ∧ j = (b.walked s).length)

/-- The iterators from `begin` on, and the end. -/
def IsForward (x : LevelIterator) : Prop :=
  x = b.endIter s ∨ ∃ n, b.moveIters s (b.beginIter s) (List.replicate n .next) = some x

/-- The iterators the book hands out for this half, moved in any way. -/
def IsObtained (x : LevelIterator) : Prop :=
  ∃ start ms, (start = b.beginIter s ∨ start = b.endIter s) ∧ b.moveIters s start ms = some x

/-- The iterators of a half do what they should, `target` being an iterator that others are
assigned to. -/
structure IteratesLevels (target : LevelIterator) : Prop where
  visits : ∃ fuel, b.iterate s fuel = some (b.shown s)
  all : ∀ p l, (p, l) ∈ b.shown s ↔ b.findLevel s p = some l ∧ l.size ≠ 0
  ordered : (b.shown s).Pairwise fun a c => Better s a.1 c.1
  back : ∀ x, b.IsForward s x → ∃ i j, x = b.iterAt s i ∧ b.prevIter s x = some (b.iterAt s j) ∧
    b.IsBack s i j
  assigned : ∀ x, b.IsObtained s x → ∀ ms,
    (b.moveIters s (target.assign x) ms).map LevelIterator.plMapIter =
      (b.moveIters s x ms).map LevelIterator.plMapIter

variable {b s}
variable {x y : LevelIterator}

theorem next_kept (h : b.nextIter s x = some y) : y.plMapBegin = x.plMapBegin := by
  unfold nextIter at h
  split at h
  · rw [some.inj h]
  · obtain ⟨i, -, h⟩ := bind_eq_some_iff.mp h
    obtain ⟨j, -, h⟩ := bind_eq_some_iff.mp h
    rw [← some.inj h]

theorem prev_kept (h : b.prevIter s x = some y) : y.plMapBegin = x.plMapBegin := by
  unfold prevIter at h
  split at h
  · rw [some.inj h]
  · obtain ⟨i, -, h⟩ := bind_eq_some_iff.mp h
    obtain ⟨j, -, h⟩ := bind_eq_some_iff.mp h
    rw [← some.inj h]

theorem IsObtained.plMapBegin (h : b.IsObtained s x) : x.plMapBegin = some 0 := by
  obtain ⟨start, ms, hstart, hms⟩ := h
  have hbegin : start.plMapBegin = some 0 := by
    rcases hstart with rfl | rfl <;> rfl
  clear hstart
  induction ms generalizing start with
  | nil => rwa [← some.inj hms]
  | cons m ms ih =>
    obtain ⟨y, hy, hms⟩ := bind_eq_some_iff.mp hms
    refine ih y hms ?_
    cases m with
    | next => exact (next_kept hy).trans hbegin
    | prev => exact (prev_kept hy).trans hbegin

theorem IsForward.place (h : b.IsForward s x) : ∃ i, x = b.iterAt s i ∧ i ≤ (b.walked s).length ∧
      (i = (b.walked s).length ∨ b.sizedAt s i) := by
  rcases h with rfl | ⟨n, hn⟩
  · exact ⟨_, rfl, Nat.le_refl _, .inl rfl⟩
  have hstart : ∃ i, b.beginIter s = b.iterAt s i ∧ i ≤ (b.walked s).length ∧
      (i = (b.walked s).length ∨ b.sizedAt s i) := by
    obtain ⟨i, hi, hle, hstop, -⟩ := b.exists_begin s
    rw [stopsAt_end, Bool.or_eq_true, decide_eq_true_iff] at hstop
    exact ⟨i, hi, hle, hstop⟩
  generalize b.beginIter s = start at hn hstart
  induction n generalizing start with
  | zero => rwa [← some.inj hn]
  | succ n ih =>
    obtain ⟨y, hy, hrest⟩ := bind_eq_some_iff.mp hn
    obtain ⟨i, rfl, hle, -⟩ := hstart
    refine ih y hrest ?_
    by_cases hi : i = (b.walked s).length
    · have hy' : b.nextIter s (b.endIter s) = some y := by
        rwa [hi] at hy
      rw [nextIter_end] at hy'
      exact ⟨_, (some.inj hy').symm, Nat.le_refl _, .inl rfl⟩
    · have hy' : b.nextIter s (b.iterAt s i) = some y := hy
      rw [nextIter_iterAt b s (by omega), map_eq_some_iff] at hy'
      obtain ⟨j, hj, rfl⟩ := hy'
      obtain ⟨-, hroom, hstop, -⟩ := advance_eq_some.mp hj
      rw [stopsAt_end, Bool.or_eq_true, decide_eq_true_iff] at hstop
      exact ⟨j, rfl, by omega, hstop⟩

theorem prevIter_iterAt (hi : i ≠ 0) :
    b.prevIter s (b.iterAt s i) = (retreat (b.stopsAt s (some 0)) i).map (b.iterAt s) := by
  have hne : (b.iterAt s i).plMapIter ≠ (b.iterAt s i).plMapBegin := fun h => hi (some.inj h)
  rw [prevIter, if_neg hne]
  show ((retreat (b.stopsAt s (some 0)) i).bind fun j => some (b.iterAt s j)) = _
  cases retreat (b.stopsAt s (some 0)) i <;> rfl

theorem prevIter_zero : b.prevIter s (b.iterAt s 0) = some (b.iterAt s 0) := if_pos rfl

theorem stopsAt_zero_of_pos {k : Nat} (hk : k ≠ 0) : b.stopsAt s (some 0) k = b.sizedAt s k := by
  have hne : ¬(some 0 : MapPos) = some k := fun h => hk (some.inj h).symm
  rw [stopsAt, decide_eq_false hne, Bool.false_or]

theorem exists_back (hi : i = (b.walked s).length ∨ b.sizedAt s i)
    (hfirst : b.walked s = [] ∨ b.sizedAt s 0) :
    ∃ j, b.prevIter s (b.iterAt s i) = some (b.iterAt s j) ∧ b.IsBack s i j := by
  by_cases h0 : i = 0
  · subst h0
    refine ⟨0, prevIter_zero, ?_⟩
    rcases hfirst with hnil | hsized
    · refine .inr (.inr ⟨fun k => ?_, by rw [hnil]; rfl⟩)
      rw [sizedAt, hnil]
      rfl
    · exact .inr (.inl ⟨fun k hk => absurd hk (by omega), hsized,
        fun k hk => absurd hk (by omega)⟩)
  have hsized : b.sizedAt s 0 := by
    rcases hfirst with hnil | hsized
    · rcases hi with hi | hi
      · rw [hnil] at hi; exact absurd hi h0
      · have := lt_of_holdsAt hi
        rw [hnil] at this
        cases this
    · exact hsized
  have hstop : b.stopsAt s (some 0) 0 := by rw [stopsAt, hsized, Bool.or_true]
  obtain ⟨j, hj⟩ := exists_retreat (by omega : 0 < i) hstop
  obtain ⟨hlt, hsj, hbetween⟩ := retreat_eq_some.mp hj
  refine ⟨j, by rw [prevIter_iterAt h0, hj]; rfl, .inl ⟨hlt, ?_, fun k hk₁ hk₂ => ?_⟩⟩
  · by_cases hj0 : j = 0
    · rwa [hj0]
    · rwa [← stopsAt_zero_of_pos hj0]
  · rw [← stopsAt_zero_of_pos (by omega : k ≠ 0)]; exact hbetween k hk₁ hk₂

/-- Where the best level of a half has no size, `--` from the first place in view stays on it. -/
theorem first_of_back (h : ∀ x, b.IsForward s x → ∃ i j, x = b.iterAt s i ∧
    b.prevIter s x = some (b.iterAt s j) ∧ b.IsBack s i j) :
    b.walked s = [] ∨ b.sizedAt s 0 := by
  by_contra hno
  obtain ⟨hne, hsized⟩ := not_or.mp hno
  have hlen : 0 < (b.walked s).length := length_pos_iff.mpr hne
  obtain ⟨i, hbegin, -, hstop, hbefore⟩ := b.exists_begin s
  have hforward : b.IsForward s (b.beginIter s) := .inr ⟨0, rfl⟩
  obtain ⟨i', j, hi', hprev, hback⟩ := h _ hforward
  obtain rfl : i = i' := by
    have : (b.iterAt s i).plMapIter = (b.iterAt s i').plMapIter := by rw [← hbegin, hi']
    exact some.inj this
  have hi0 : i ≠ 0 := by
    rintro rfl
    rw [stopsAt_end, Bool.or_eq_true, decide_eq_true_iff] at hstop
    rcases hstop with h0 | h0
    · omega
    · exact hsized h0
  -- nothing with a size lies before, so the loop runs into the bound
  have hretreat : retreat (b.stopsAt s (some 0)) i = some 0 := by
    refine retreat_eq_some.mpr ⟨by omega, rfl, fun k hk₁ hk₂ => ?_⟩
    rw [stopsAt_zero_of_pos (by omega)]
    exact hbefore k hk₂
  obtain rfl : 0 = j := by
    rw [hi', prevIter_iterAt hi0, hretreat] at hprev
    have := congrArg LevelIterator.plMapIter (some.inj hprev)
    exact some.inj this
  rcases hback with ⟨-, h0, -⟩ | ⟨-, h0, -⟩ | ⟨-, h0⟩
  · exact hsized h0
  · exact hsized h0
  · omega

theorem assign_of_begin {target : LevelIterator} (h : target.plMapBegin = x.plMapBegin) :
    target.assign x = x := by
  cases x
  cases target
  cases h
  rfl

/-- With another begin bound the assigned iterator leaves the map where its source stays. -/
theorem begin_of_assigned {target : LevelIterator}
    (hfirst : b.walked s = [] ∨ b.sizedAt s 0)
    (h : ∀ x, b.IsObtained s x → ∀ ms,
      (b.moveIters s (target.assign x) ms).map LevelIterator.plMapIter =
        (b.moveIters s x ms).map LevelIterator.plMapIter) :
    target.plMapBegin = some 0 := by
  by_contra hne
  have hbegin : b.beginIter s = b.iterAt s 0 := by
    have hstop : b.stopsAt s (some (b.walked s).length) 0 := by
      rw [stopsAt_end]
      rcases hfirst with hnil | hsized
      · rw [hnil]; rfl
      · rw [show holdsAt hasSize (b.walked s) 0 from hsized, Bool.or_true]
    simp only [beginIter, firstStop, if_pos hstop]
    rfl
  have heq := h (b.beginIter s) ⟨_, [], .inl rfl, rfl⟩ [.prev]
  rw [hbegin] at heq
  have hsource : b.moveIters s (b.iterAt s 0) [.prev] = some (b.iterAt s 0) := by rfl
  have htarget : b.moveIters s (target.assign (b.iterAt s 0)) [.prev] = none := by
    have hne' : (target.assign (b.iterAt s 0)).plMapIter ≠
        (target.assign (b.iterAt s 0)).plMapBegin := fun h0 => hne h0.symm
    show (b.prevIter s (target.assign (b.iterAt s 0))).bind some = none
    rw [prevIter, if_neg hne']
    rfl
  rw [htarget] at heq
  cases heq

end Backwards

/-- The iterators of a half do what they should just where the best level of the half has a size,
or the half is empty, and the iterator assigned to has the begin bound already. -/
theorem iteratesLevels_iff (b : Book) (s : BookSide) (target : LevelIterator) :
    b.IteratesLevels s target ↔ (b.walked s = [] ∨ b.sizedAt s 0) ∧ target.plMapBegin = some 0 := by
  constructor
  · intro h
    have hfirst := first_of_back h.back
    exact ⟨hfirst, begin_of_assigned hfirst h.assigned⟩
  rintro ⟨hfirst, htarget⟩
  refine ⟨⟨_, b.visits_levels s⟩, fun p l => b.mem_shown s, b.pairwise_shown s, ?_, ?_⟩
  · intro x hx
    obtain ⟨i, rfl, -, hi⟩ := hx.place
    obtain ⟨j, hprev, hback⟩ := exists_back hi hfirst
    exact ⟨i, j, rfl, hprev, hback⟩
  · intro x hx ms
    rw [assign_of_begin (htarget.trans hx.plMapBegin.symm)]

/-! ### A best bid without a size -/

def unsizedBest : Book :=
  let b := ((Book.new 0 fun _ => true).addNewEntry true .bid 10 "a" 5 .null none).1
  (b.addNewEntry true .bid 11 "b" 0 .null none).1

def singleBid : Book := ((Book.new 0 fun _ => true).addNewEntry true .bid 10 "a" 5 .null none).1

/-- From the bid at 10 `--` goes to the bid at 11; and an iterator that was never set, assigned from
`bidBegin`, has no bound. -/
theorem not_iteratesLevels : ¬unsizedBest.IteratesLevels .bid (unsizedBest.beginIter .bid) ∧
    ¬singleBid.IteratesLevels .bid ⟨none, none, none⟩ := by
  constructor
  · intro h; exact nomatch first_of_back h.back
  · intro h; exact absurd (begin_of_assigned (first_of_back h.back) h.assigned) (by decide)

end Book

end Mamda
