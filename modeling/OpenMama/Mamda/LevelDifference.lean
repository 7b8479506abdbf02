import OpenMama.Lib.Cursor
import OpenMama.Mamda.BookDifference
import OpenMama.Mamda.Replica

/-!
# The difference of two levels

The loop of `setAsDifference` as it is written.  It aligns the entries of two
levels by their ids, looking ahead for an id that comes later.  All four of its
iterators are made by `begin ()` and `end ()` of the level the difference is made
in, so both go through the entries of that level side by side: each round finds
two equal entries and adds one at the end (`InStep.round`).  Where there is an
entry to begin with the loop does not end, and otherwise nothing is added.

`differenceYields_iff` says what is left of the difference: it turns one level
into another just where there is nothing to do.
-/

namespace Mamda

open Mama Lib List

namespace PriceLevel

/-! ## Algorithm -/

/-- Where a loop over the entries of the level stops: at the entries it shows and at the end. -/
def showsAt (counts : Entry → Bool) (l : PriceLevel) (i : Nat) : Bool :=
  decide (i = l.entryList.length) || holdsAt counts l.entryList i

/-- `begin`. -/
def firstEntry (counts : Entry → Bool) (l : PriceLevel) : Nat :=
  (firstStop (l.showsAt counts) l.entryList.length).getD l.entryList.length

/-- `++` of an entry iterator; at the end it stays. -/
def nextEntry (counts : Entry → Bool) (l : PriceLevel) (i : Nat) : Nat :=
  (advance (l.showsAt counts) (l.entryList.length - i) i).getD l.entryList.length

/-- `findEntryAfter`, with fuel. -/
def findEntryAfter (counts : Entry → Bool) (l : PriceLevel) (id : String) : Nat → Nat → Nat
  | 0, i => i
  | fuel + 1, i =>
    match l.entryList[i]? with
    | some e => if id = e.id then i else l.findEntryAfter counts id fuel (l.nextEntry counts i)
    | none => i

/-- The variables of the loop of `setAsDifference`: the level that is built, the iterators
`lhsIter` and `rhsIter` and the number of entries allocated. -/
structure DiffLoop where
  level : PriceLevel
  lhsIter : Nat
  rhsIter : Nat
  allocated : Nat

/-- `addEntry (new MamdaOrderBookEntry (e))`. -/
def DiffLoop.addCopy (counts : Entry → Bool) (fresh : Nat → Ref) (x : DiffLoop) (e : Entry) :
    DiffLoop :=
  { x with level := x.level.addEntry counts (e.copyAt (fresh x.allocated)),
           allocated := x.allocated + 1 }

/-- `do { addEntry (copy of *rhsIter); ++rhsIter; } while (rhsIter != rhsFound)`, with fuel. -/
def DiffLoop.addUntil (counts : Entry → Bool) (fresh : Nat → Ref) (found : Nat) :
    Nat → DiffLoop → DiffLoop
  | 0, x => x
  | fuel + 1, x =>
    match x.level.entryList[x.rhsIter]? with
    | none => x
    | some e =>
      let x := x.addCopy counts fresh e
      let x := { x with rhsIter := x.level.nextEntry counts x.rhsIter }
      if x.rhsIter = found then x else x.addUntil counts fresh found fuel

/-- One round of the loop; none when an iterator is at the end. -/
def DiffLoop.round (counts : Entry → Bool) (fresh : Nat → Ref) (x : DiffLoop) :
    Option DiffLoop :=
  match x.level.entryList[x.lhsIter]?, x.level.entryList[x.rhsIter]? with
  | some e, some e' =>
    if e.id = e'.id then
      let x := if e.size = e'.size then x.addCopy counts fresh { e' with action := .update } else x
      some { x with lhsIter := x.level.nextEntry counts x.lhsIter,
                    rhsIter := x.level.nextEntry counts x.rhsIter }
    else
      let n := x.level.entryList.length
      let found := x.level.findEntryAfter counts e.id (n + 1) x.rhsIter
      if found < n then some (x.addUntil counts fresh found (n + 1))
      else
        let x := x.addCopy counts fresh e
        some { x with lhsIter := x.level.nextEntry counts x.lhsIter }
  | _, _ => none

def DiffLoop.rounds (counts : Entry → Bool) (fresh : Nat → Ref) : Nat → DiffLoop → Option PriceLevel
  | 0, _ => none
  | fuel + 1, x =>
    match x.round counts fresh with
    | some y => y.rounds counts fresh fuel
    | none => some x.level

/-- What `setAsDifference` sets after the loop. -/
def setDifferenceDetails (l lhs rhs : PriceLevel) : PriceLevel :=
  { ((({ l with price := rhs.price }.setSizeChange ((rhs.size : Int) - lhs.size)).setSize
      rhs.size).setNumEntries rhs.numEntries) with
    action := .update
    time := rhs.time
    side := rhs.side }

/-- `setAsDifference`; the calls of `begin` and `end` allocate the entries. -/
def setAsDifferenceIn (counts : Entry → Bool) (fresh : Nat → Ref) (fuel : Nat)
    (l lhs rhs : PriceLevel) : Option PriceLevel :=
  let l : PriceLevel := { l with entries := some l.entryList }
  let first := l.firstEntry counts
  (DiffLoop.rounds counts fresh fuel ⟨l, first, first, 0⟩).map fun l =>
    l.setDifferenceDetails lhs rhs

/-- The difference of two levels of one price, made in `l`, turns the copy of the one in `b` into
the other: the loop ends, and with its entries applied the level has just the ids and sizes of
`rhs`. -/
def DifferenceYields (book b : Book) (s : BookSide) (fresh : Nat → Ref) (l lhs rhs : PriceLevel) :
    Prop :=
  ∃ fuel d, l.setAsDifferenceIn (book.counts l) fresh fuel lhs rhs = some d ∧
    ∃ b' l', b.applyLevelSide s d (book.shownEntries d) = (b', none) ∧
      b'.findLevel s rhs.price = some l' ∧ ∀ q, q ∈ l'.pairs ↔ q ∈ rhs.pairs

/-! ## Lemmas -/

def StableSource (q : Entry → Bool) : Prop :=
  ∀ e e' : Entry, e.sourceDeriv = e'.sourceDeriv → q e = q e'

theorem stableSource_counts (book : Book) (l : PriceLevel) : StableSource (book.counts l) := by
  intro e e' h
  unfold Book.counts Entry.isVisible
  rw [h]

section Loop

variable {counts : Entry → Bool} {fresh : Nat → Ref} {l lhs rhs : PriceLevel}

def DiffLoop.InStep (counts : Entry → Bool) (x : DiffLoop) : Prop :=
  x.lhsIter = x.rhsIter ∧ holdsAt counts x.level.entryList x.lhsIter

theorem showsAt_end (counts : Entry → Bool) (l : PriceLevel) :
    l.showsAt counts l.entryList.length := by
  unfold showsAt
  simp

theorem length_addCopy (counts : Entry → Bool) (fresh : Nat → Ref) (x : DiffLoop) (e : Entry) :
    (x.addCopy counts fresh e).level.entryList.length = x.level.entryList.length + 1 :=
  length_append

theorem holdsAt_addCopy (fresh : Nat → Ref) (hstable : StableSource counts) (x : DiffLoop)
    (e : Entry) :
    holdsAt counts (x.addCopy counts fresh e).level.entryList x.level.entryList.length =
      counts e := by
  show (((x.level.entryList ++ [{ e.copyAt (fresh x.allocated) with
    priceLevel := some x.level.ref }])[x.level.entryList.length]?).elim false counts) = _
  rw [getElem?_append_right (Nat.le_refl _), Nat.sub_self]
  exact hstable _ _ rfl

section

variable (hstable : StableSource counts)

include hstable

/-- In step, a round adds one entry and both iterators go on to an entry that is shown. -/
theorem DiffLoop.InStep.round {x : DiffLoop}
    (h : x.InStep counts) : ∃ y, x.round counts fresh = some y ∧ y.InStep counts := by
  obtain ⟨hsame, hshown⟩ := h
  obtain ⟨e, he, hcounts⟩ := holdsAt_eq_true.mp hshown
  have hlt := lt_of_holdsAt hshown
  have he' : x.level.entryList[x.rhsIter]? = some e := by rw [← hsame, he]
  have hround : x.round counts fresh =
      let y := x.addCopy counts fresh { e with action := .update }
      some { y with lhsIter := y.level.nextEntry counts y.lhsIter,
                    rhsIter := y.level.nextEntry counts y.rhsIter } := by
    rw [DiffLoop.round, he, he']
    dsimp only
    rw [if_pos rfl, if_pos rfl]
  refine ⟨_, hround, ?_⟩
  -- the new entry is shown as the old one is, so there is an entry to go on to
  have hlen := length_addCopy counts fresh x { e with action := .update }
  have hcopy : counts { e with action := .update } = true := by
    rw [hstable { e with action := .update } e rfl, hcounts]
  have hlast := (holdsAt_addCopy fresh hstable x { e with action := .update }).trans hcopy
  generalize hy : x.addCopy counts fresh { e with action := .update } = y at hlen hlast
  have hlhs : y.lhsIter = x.lhsIter := by rw [← hy]; rfl
  have hrhs : y.rhsIter = x.rhsIter := by rw [← hy]; rfl
  have hstop : y.level.showsAt counts x.level.entryList.length := by
    rw [showsAt, hlast, Bool.or_true]
  obtain ⟨j, hj⟩ := exists_advance (y.level.entryList.length - x.lhsIter) (by omega)
    (by omega) hstop
  obtain ⟨-, -, hsj, hbetween⟩ := advance_eq_some.mp hj
  have hjlt : j < y.level.entryList.length := by
    by_contra hno
    have := hbetween x.level.entryList.length hlt (by omega)
    rw [hstop] at this
    cases this
  have hnext : y.level.nextEntry counts x.lhsIter = j := by
    rw [nextEntry, hj]; rfl
  refine ⟨?_, ?_⟩
  · show y.level.nextEntry counts y.lhsIter = y.level.nextEntry counts y.rhsIter
    rw [hlhs, hrhs, hsame]
  show holdsAt counts y.level.entryList (y.level.nextEntry counts y.lhsIter)
  rw [hlhs, hnext]
  unfold showsAt at hsj
  rw [Bool.or_eq_true, decide_eq_true_iff] at hsj
  rcases hsj with hsj | hsj
  · omega
  · exact hsj

theorem DiffLoop.InStep.rounds (fuel : Nat) {x : DiffLoop}
    (h : x.InStep counts) : x.rounds counts fresh fuel = none := by
  induction fuel generalizing x with
  | zero => rfl
  | succ fuel ih =>
    obtain ⟨y, (hy : x.round counts fresh = some y), hstep⟩ := h.round hstable
    rw [DiffLoop.rounds, hy]
    exact ih hstep

omit hstable in
theorem firstEntry_spec (counts : Entry → Bool) (l : PriceLevel) :
    l.showsAt counts (l.firstEntry counts) ∧
      ∀ k, k < l.firstEntry counts → l.showsAt counts k = false := by
  obtain ⟨i, hi, -, hstop, hbefore⟩ := exists_firstStop (showsAt_end counts l)
  have hfirst : l.firstEntry counts = i := by
    rw [firstEntry, hi]; rfl
  rw [hfirst]
  exact ⟨hstop, hbefore⟩

theorem setAsDifferenceIn_shown {i : Nat} (hi : holdsAt counts l.entryList i) (fuel : Nat) :
    l.setAsDifferenceIn counts fresh fuel lhs rhs = none := by
  have hlt := lt_of_holdsAt hi
  obtain ⟨hstop, hbefore⟩ := firstEntry_spec counts { l with entries := some l.entryList }
  generalize hfirst : PriceLevel.firstEntry counts { l with entries := some l.entryList } = first
    at hstop hbefore
  have hle : first ≤ i := by
    by_contra hno
    have := hbefore i (by omega)
    unfold showsAt at this
    rw [Bool.or_eq_false_iff] at this
    rw [show entryList { l with entries := some l.entryList } = l.entryList from rfl, hi] at this
    cases this.2
  have hshown : holdsAt counts l.entryList first := by
    unfold showsAt at hstop
    rw [Bool.or_eq_true, decide_eq_true_iff] at hstop
    rcases hstop with hstop | hstop
    · exact absurd hstop (Nat.ne_of_lt (Nat.lt_of_le_of_lt hle hlt))
    · exact hstop
  have hstep : DiffLoop.InStep counts
      ⟨{ l with entries := some l.entryList }, first, first, 0⟩ := ⟨rfl, hshown⟩
  unfold setAsDifferenceIn
  simp only [hfirst, hstep.rounds hstable fuel]
  rfl

end

theorem setAsDifferenceIn_hidden (hnone : ∀ i, holdsAt counts l.entryList i = false)
    (fuel : Nat) : l.setAsDifferenceIn counts fresh (fuel + 1) lhs rhs =
      some ({ l with entries := some l.entryList }.setDifferenceDetails lhs rhs) := by
  obtain ⟨hstop, -⟩ := firstEntry_spec counts { l with entries := some l.entryList }
  have hend : PriceLevel.firstEntry counts { l with entries := some l.entryList } =
      l.entryList.length := by
    unfold showsAt at hstop
    rwa [show entryList { l with entries := some l.entryList } = l.entryList from rfl, hnone,
      Bool.or_false, decide_eq_true_iff] at hstop
  unfold setAsDifferenceIn
  simp only [hend]
  have hround : DiffLoop.round counts fresh ⟨{ l with entries := some l.entryList },
      l.entryList.length, l.entryList.length, 0⟩ = none := by
    unfold DiffLoop.round
    rw [show entryList { l with entries := some l.entryList } = l.entryList from rfl,
      getElem?_eq_none (Nat.le_refl _)]
  rw [DiffLoop.rounds, hround]
  rfl

end Loop

/-- Between levels that show all their entries, as those linked to no book do, the loop is
`setAsDifference`. -/
theorem setAsDifferenceIn_iff (fresh : Nat → Ref) (l lhs rhs d : PriceLevel) :
    (∃ fuel, l.setAsDifferenceIn (fun _ => true) fresh fuel lhs rhs = some d) ↔
      l.setAsDifference lhs rhs = some d := by
  unfold setAsDifference
  by_cases hempty : l.empty
  · rw [if_pos hempty]
    have hnil : l.entryList = [] := List.isEmpty_iff.mp hempty
    have hnone : ∀ i, holdsAt (fun _ => true) l.entryList i = false := by
      intro i
      rw [hnil]
      rfl
    constructor
    · rintro ⟨fuel, hd⟩
      cases fuel with
      | zero => cases hd
      | succ fuel => rwa [setAsDifferenceIn_hidden hnone, hnil] at hd
    · intro hd
      refine ⟨1, ?_⟩
      rwa [setAsDifferenceIn_hidden hnone, hnil]
  rw [if_neg hempty]
  constructor
  · rintro ⟨fuel, hd⟩
    have hpos : 0 < l.entryList.length := by
      rcases Nat.eq_zero_or_pos l.entryList.length with h0 | h0
      · exact absurd (List.isEmpty_iff.mpr (length_eq_zero_iff.mp h0)) hempty
      · exact h0
    have hshown : holdsAt (fun _ => true) l.entryList 0 := by
      refine holdsAt_eq_true.mpr ⟨l.entryList[0], getElem?_eq_getElem hpos, rfl⟩
    rw [setAsDifferenceIn_shown (fun _ _ _ => rfl) hshown] at hd
    cases hd
  · intro hd; cases hd

end PriceLevel

namespace Book

open PriceLevel

theorem applyLevelSide_nil (b : Book) (s : BookSide) (d : PriceLevel) {l : PriceLevel}
    (hfind : b.findLevel s d.price = some l) :
    ∃ b', b.applyLevelSide s d [] = (b', none) ∧
      b'.findLevel s d.price = some (l.setDetails d) := by
  refine ⟨b.putLevel (.limit s d.price) (l.setDetails d), ?_, ?_⟩
  · unfold applyLevelSide
    simp only [applyEntries]
    rw [setLevelDetails, show b.levelAt (.limit s d.price) = b.findLevel s d.price from rfl, hfind]
  · simp

section Yields

variable {book b : Book} {s : BookSide} {fresh : Nat → Ref} {l lhs rhs copied : PriceLevel}

section

variable (hnil : book.shownEntries l = [])

include hnil

theorem hidden_of_shownEntries (i : Nat) : holdsAt (book.counts l) l.entryList i = false := by
  by_contra hshown
  obtain ⟨e, he, hcounts⟩ := holdsAt_eq_true.mp (Bool.eq_true_of_not_eq_false hshown)
  have hmem : e ∈ book.shownEntries l := mem_filter.mpr ⟨mem_of_getElem? he, hcounts⟩
  rw [hnil] at hmem
  cases hmem

theorem applied_hidden
    (hfind : b.findLevel s rhs.price = some copied) :
    ∃ b' l', b.applyLevelSide s
        ({ l with entries := some l.entryList }.setDifferenceDetails lhs rhs)
        (book.shownEntries ({ l with entries := some l.entryList }.setDifferenceDetails lhs rhs)) =
          (b', none) ∧
      b'.findLevel s rhs.price = some l' ∧ l'.pairs = copied.pairs := by
  obtain ⟨b', happly, hfind'⟩ := b.applyLevelSide_nil s
    ({ l with entries := some l.entryList }.setDifferenceDetails lhs rhs) hfind
  refine ⟨b', _, ?_, hfind', rfl⟩
  rw [← happly, ← hnil]
  rfl

omit hnil in
theorem shows_none_of_yields (h : DifferenceYields book b s fresh l lhs rhs) :
    book.shownEntries l = [] := by
  obtain ⟨fuel, d, hd, -⟩ := h
  by_contra hne
  obtain ⟨e, he⟩ := exists_mem_of_ne_nil _ hne
  obtain ⟨hmem, hcounts⟩ := mem_filter.mp he
  obtain ⟨i, hi⟩ := mem_iff_getElem?.mp hmem
  rw [setAsDifferenceIn_shown (stableSource_counts book l)
    (holdsAt_eq_true.mpr ⟨e, hi, hcounts⟩)] at hd
  cases hd

omit hnil in
theorem same_of_yields (h : DifferenceYields book b s fresh l lhs rhs)
    (hfind : b.findLevel s rhs.price = some copied) (q : String × Nat) :
    q ∈ copied.pairs ↔ q ∈ rhs.pairs := by
  have hnil := shows_none_of_yields h
  obtain ⟨fuel, d, hd, b', l', happly, hfind', hmem⟩ := h
  cases fuel with
  | zero => cases hd
  | succ fuel =>
    rw [setAsDifferenceIn_hidden (hidden_of_shownEntries hnil)] at hd
    cases hd
    obtain ⟨b'', l'', happly', hfind'', hpairs⟩ := applied_hidden hnil hfind
    rw [happly] at happly'
    cases happly'
    rw [hfind'] at hfind''
    cases hfind''
    rw [← hpairs]
    exact hmem q

theorem yields_of_same (hfind : b.findLevel s rhs.price = some copied)
    (hsame : ∀ q, q ∈ copied.pairs ↔ q ∈ rhs.pairs) :
    DifferenceYields book b s fresh l lhs rhs := by
  obtain ⟨b', l', happly, hfind', hpairs⟩ := applied_hidden hnil hfind
  refine ⟨1, _, setAsDifferenceIn_hidden (hidden_of_shownEntries hnil) 0, b', l', happly, hfind',
    fun q => ?_⟩
  rw [hpairs]
  exact hsame q

end

/-- The difference turns one level into another just where it is made in a level that shows no
entries and there is nothing to do. -/
theorem differenceYields_iff (hprice : lhs.price = rhs.price)
    (hfind : b.findLevel s lhs.price = some copied) (hcopied : copied.pairs = lhs.pairs) :
    DifferenceYields book b s fresh l lhs rhs ↔
      book.shownEntries l = [] ∧ ∀ q, q ∈ lhs.pairs ↔ q ∈ rhs.pairs := by
  rw [hprice] at hfind
  rw [← hcopied]
  constructor
  · intro h; exact ⟨shows_none_of_yields h, same_of_yields h hfind⟩
  · rintro ⟨hnil, hsame⟩; exact yields_of_same hnil hfind hsame

end Yields

def oneEntry (size : Nat) : PriceLevel :=
  (PriceLevel.new ⟨0, 1⟩ 10 .bid).addEntry (fun _ => true)
    (Entry.new ⟨0, 2⟩ "a" size .add .null none)

def holdingOne (size : Nat) : Book :=
  (Book.new 0 fun _ => true).putLevel (.limit .bid 10) (oneEntry size)

/-- A difference of a level with itself, made in a new level, changes nothing. -/
theorem differenceYields_same :
    DifferenceYields (holdingOne 5) (holdingOne 5) .bid (Ref.mk 1) (PriceLevel.new ⟨2, 0⟩ 0 .bid)
      (oneEntry 5) (oneEntry 5) :=
  (differenceYields_iff rfl (findLevel_putLevel_self _ _ _ _) rfl).mpr ⟨rfl, fun _ => Iff.rfl⟩

/-- The size of an entry changes from 5 to 7; the difference made in a new level has no entry. -/
theorem not_differenceYields :
    (oneEntry 5).price = (oneEntry 7).price ∧
      (holdingOne 5).findLevel .bid (oneEntry 5).price = some (oneEntry 5) ∧
      ((oneEntry 5).entryList.map Entry.id).Nodup ∧ ((oneEntry 7).entryList.map Entry.id).Nodup ∧
      ¬ DifferenceYields (holdingOne 5) (holdingOne 5) .bid (Ref.mk 1)
        (PriceLevel.new ⟨2, 0⟩ 0 .bid)
        (oneEntry 5) (oneEntry 7) := by
  have hfind : (holdingOne 5).findLevel .bid 10 = some (oneEntry 5) :=
    findLevel_putLevel_self _ _ _ _
  refine ⟨rfl, hfind, by decide, by decide, fun h => ?_⟩
  have hsame := (same_of_yields h hfind ("a", 5)).mp (by decide)
  exact nomatch hsame

end Book

end Mamda
