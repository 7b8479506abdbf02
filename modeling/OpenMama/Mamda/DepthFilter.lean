import OpenMama.Lib.TopOfMap
import OpenMama.Mamda.Publisher

/-!
# `MamdaOrderBookDepthFilter`

The filter keeps a book of its own that shows the top of the full book of the
listener it handles events for.  The levels in both are the same objects, so the
truncated book keeps their addresses, and what a level holds is read when an event
is handled.  By then the full book is in its final state, also while the deltas of
one message are still being worked through.

The filter caches how many levels each half shows and the price of the worst.  An
iterator that is moved in front of the first level is an error of its own
(`FilterStop.undefined`); an exception ends the event.
-/

namespace Mamda

open Mama Lib

/-- The levels of one half of a book by price, as the pointers the map holds. -/
abbrev PtrMap := SortedMap Price Ref

/-- What the filter finds when it handles an event: the maps of the full book, the level objects,
and the entries the iterator of each shows. -/
structure FullBook where
  levels : Sides PtrMap
  object : Ref → PriceLevel
  shown : Ref → List Entry

def bestFirst (s : BookSide) (m : PtrMap) : List (Price × Ref) :=
  match s with
  | .bid => m.toList.reverse
  | .ask => m.toList

def worse (s : BookSide) (p q : Price) : Bool :=
  match s with
  | .bid => p < q
  | .ask => q < p

namespace FullBook

/-- What the iterators of a book visit: a level of size zero is passed over. -/
def visible (b : FullBook) (s : BookSide) (m : PtrMap) : List (Price × Ref) :=
  (bestFirst s m).filter fun a => (b.object a.2).size ≠ 0

def level (b : FullBook) (s : BookSide) (a : Price × Ref) : PriceLevel :=
  { b.object a.2 with ref := a.2, price := a.1, side := s.side }

def getLevelAtPosition (b : FullBook) (pos : Nat) (s : BookSide) : Option (Price × Ref) :=
  (b.visible s (b.levels.get s))[pos]?

end FullBook

/-! ## `size_t` -/

def sizeInc (n : Nat) : Nat := (n + 1) % 2 ^ 64

def sizeDec (n : Nat) : Nat := (n + (2 ^ 64 - 1)) % 2 ^ 64

/-! ## The filter -/

/-- One half of the truncated book, with the cached price of the worst level and their number. -/
structure HalfView where
  levels : PtrMap
  lastPrice : Price
  depth : Nat

/-- `MamdaOrderBookDepthFilterImpl`.  `handed` is what the handlers have been given, one list of
deltas for a call. -/
structure DepthFilter where
  maxDepth : Nat
  halves : Sides HalfView
  processesEntries : Bool
  deltas : Publisher
  handed : List (List BasicDelta)

inductive FilterStop
  | thrown (err : BookError)
  | undefined

abbrev Filtered := Except FilterStop

namespace DepthFilter

/-- A new filter; `junk` is what the prices that the constructor does not initialise hold. -/
def new (maxDepth : Nat) (processesEntries : Bool) (junk : Sides Price) : DepthFilter where
  maxDepth := maxDepth
  halves := ⟨⟨.empty, junk.bid, 0⟩, ⟨.empty, junk.ask, 0⟩⟩
  processesEntries := processesEntries
  deltas := ⟨0, none, .new 0⟩
  handed := []

def setHalf (x : DepthFilter) (s : BookSide) (h : HalfView) : DepthFilter :=
  { x with halves := x.halves.set s h }

/-! ### The truncated book -/

/-- `addLevel` of the truncated book. -/
def addLevel (x : DepthFilter) (l : PriceLevel) : Filtered DepthFilter :=
  match l.side.book? with
  | none => .ok x
  | some s =>
    let h := x.halves.get s
    match h.levels.find? l.price with
    | none => .ok (x.setHalf s { h with levels := h.levels.insert l.price l.ref })
    | some _ => .error (.thrown (.addLevelExists l.price))

/-- `deleteLevel` of the truncated book. -/
def deleteLevel (x : DepthFilter) (l : PriceLevel) : Filtered DepthFilter :=
  match l.side.book? with
  | none => .ok x
  | some s =>
    let h := x.halves.get s
    match h.levels.find? l.price with
    | some _ => .ok (x.setHalf s { h with levels := h.levels.erase l.price })
    | none => .error (.thrown (.deleteLevelMissing l.price))

/-! ### Deltas -/

/-- `addDelta` of five arguments. -/
def addDelta (x : DepthFilter) (d : BasicDelta) : DepthFilter :=
  { x with deltas := x.deltas.addDelta d }

/-- `addDelta (delta)`. -/
def forward (x : DepthFilter) (d : BasicDelta) : DepthFilter :=
  if x.processesEntries then x.addDelta d
  else x.addDelta { d with entry := none, entryAction := .unknown }

/-- The deltas of `addDeltasFromLevel`: of the entries the first makes the level. -/
def levelDeltas (processesEntries : Bool) (b : FullBook) (l : PriceLevel) : List BasicDelta :=
  if processesEntries then
    (b.shown l.ref).mapIdx fun j e => ⟨some e, l, e.size, if j = 0 then .add else .update, .add⟩
  else [⟨none, l, l.size, .add, .unknown⟩]

def addDeltasFromLevel (x : DepthFilter) (b : FullBook) (l : PriceLevel) : DepthFilter :=
  (levelDeltas x.processesEntries b l).foldl addDelta x

def waiting (x : DepthFilter) : List BasicDelta := x.deltas.waiting

def invokeDeltaHandlers (x : DepthFilter) : DepthFilter :=
  if x.deltas.currentDeltaCount = 0 then x
  else { x with handed := x.handed ++ [x.waiting], deltas := x.deltas.clear }

/-! ### Processing a delta -/

/-- The last level in view goes out of scope; the one before it is then the last. -/
def dropWorst (x : DepthFilter) (b : FullBook) (s : BookSide) : Filtered DepthFilter :=
  let h := x.halves.get s
  match (b.visible s h.levels).reverse with
  | worst :: last :: _ =>
    let l := b.level s worst
    (x.setHalf s { h with lastPrice := last.1 }).addDelta ⟨none, l, l.size, .delete, .unknown⟩
      |>.deleteLevel l
  | _ => .error .undefined

/-- A delta of one half.  `flush` hands the deltas out as soon as a level has gone out of
scope. -/
def processDelta (s : BookSide) (flush : Bool) (x : DepthFilter) (b : FullBook) (d : BasicDelta) :
    Filtered DepthFilter :=
  let h := x.halves.get s
  let price := d.level.price
  if worse s price h.lastPrice && h.depth == x.maxDepth then .ok x
  else
    match d.plAction with
    | .update => .ok (x.forward d)
    | .add => do
      let x ← x.addLevel d.level
      if h.depth = x.maxDepth then
        let x ← (x.forward d).dropWorst b s
        pure (if flush then x.invokeDeltaHandlers else x)
      else
        let h := x.halves.get s
        pure ((x.setHalf s
          { h with lastPrice := if worse s price h.lastPrice then price else h.lastPrice,
                   depth := sizeInc h.depth }).forward d)
    | .delete => do
      let x ← x.deleteLevel d.level
      let x := x.forward d
      match b.getLevelAtPosition (sizeDec h.depth % 2 ^ 32) s with
      | some a =>
        let x ← x.addLevel (b.level s a)
        let x := x.addDeltasFromLevel b (b.level s a)
        pure (x.setHalf s { x.halves.get s with lastPrice := a.1 })
      | none => pure (x.setHalf s { x.halves.get s with depth := sizeDec h.depth })
    | .unknown => .ok x

def processBidDelta (x : DepthFilter) (b : FullBook) (d : BasicDelta) : Filtered DepthFilter :=
  processDelta .bid false x b d

def processAskDelta (x : DepthFilter) (b : FullBook) (d : BasicDelta) : Filtered DepthFilter :=
  processDelta .ask true x b d

/-- A delta goes to the half of its level; a level that is no bid counts as an ask. -/
def process (b : FullBook) (x : DepthFilter) (d : BasicDelta) : Filtered DepthFilter :=
  match d.level.deltaSide with
  | .bid => x.processBidDelta b d
  | .ask => x.processAskDelta b d

/-! ### Events -/

def recapHalf (x : DepthFilter) (b : FullBook) (s : BookSide) : Filtered DepthFilter := do
  let seen := (b.visible s (b.levels.get s)).take x.maxDepth
  let x ← seen.foldlM (fun x a => x.addLevel (b.level s a)) x
  match seen.getLast? with
  | some last =>
    pure (x.setHalf s { x.halves.get s with lastPrice := last.1, depth := seen.length })
  | none => .error .undefined

/-- `mTruncatedBook->clear (false)`. -/
def clearLevels (x : DepthFilter) : DepthFilter :=
  { x with halves := ⟨{ x.halves.bid with levels := .empty },
    { x.halves.ask with levels := .empty }⟩ }

def onBookRecap (x : DepthFilter) (b : FullBook) : Filtered DepthFilter := do
  let x ← x.clearLevels.recapHalf b .bid
  x.recapHalf b .ask

def onBookClear (x : DepthFilter) : DepthFilter := x.clearLevels

def onBookDelta (x : DepthFilter) (b : FullBook) (d : BasicDelta) : Filtered DepthFilter := do
  let x ← process b x d
  pure x.invokeDeltaHandlers

def onBookComplexDelta (x : DepthFilter) (b : FullBook) (ds : List BasicDelta) :
    Filtered DepthFilter := do
  let x ← ds.foldlM (process b) x
  pure x.invokeDeltaHandlers

end DepthFilter

/-- An event for the filter, with the full book as it stands after it. -/
inductive DepthEvent
  | recap (b : FullBook)
  | clear (b : FullBook)
  | simple (d : BasicDelta) (b : FullBook)
  | complex (ds : List BasicDelta) (b : FullBook)

namespace DepthEvent

def after : DepthEvent → FullBook
  | recap b => b
  | clear b => b
  | simple _ b => b
  | complex _ b => b

def handle (x : DepthFilter) : DepthEvent → Filtered DepthFilter
  | recap b => x.onBookRecap b
  | clear _ => .ok x.onBookClear
  | simple d b => x.onBookDelta b d
  | complex ds b => x.onBookComplexDelta b ds

end DepthEvent

end Mamda
