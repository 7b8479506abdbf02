import OpenMama.Mamda.BasicDeltaList

/-!
# `MamdaOrderBook`

The order book and the operations of `MamdaOrderBookImpl`.  A book owns its
levels and a level its entries, so a pointer to one of them is followed by
looking its address up in the book (`Book.locate`).

A level reads the flags of the book it is linked to: only a linked level checks
the state of an entry's source (`Book.counts`) and reports its changes to the
publishing lists (`Book.reports`).  An operation that throws keeps what it did
before it threw, so it returns the book together with the error.
-/

namespace Mamda

open Mama Lib

/-- `PlMap`: the levels of one half of the book by price. -/
abbrev PlMap := SortedMap Price PriceLevel

/-- What a publishing book holds back until the next message: the first delta apart and,
from the second on, the list. -/
structure Publisher where
  currentDeltaCount : Nat
  simpleDelta : Option BasicDelta
  complexDelta : DeltaList

/-- `addDelta`: the first delta is kept apart; the second moves both to the list. -/
def Publisher.addDelta (x : Publisher) (d : BasicDelta) : Publisher :=
  match x.currentDeltaCount, x.simpleDelta with
  | 0, _ => { x with currentDeltaCount := 1, simpleDelta := some d }
  | 1, some first => { x with currentDeltaCount := 2,
                              complexDelta := (x.complexDelta.clear.add first).add d }
  | 1, none => { x with currentDeltaCount := 2, complexDelta := x.complexDelta.clear.add d }
  | n + 2, _ => { x with currentDeltaCount := n + 3, complexDelta := x.complexDelta.add d }

/-- `clearDeltaList`. -/
def Publisher.clear (x : Publisher) : Publisher := ⟨0, none, x.complexDelta.clear⟩

/-- `MamdaOrderBookImpl`.  `sourceOk` is the state of the sources, which the book reads but
does not own; `nextRef` numbers the next allocation. -/
structure Book where
  addr : Nat
  symbol : String
  partId : String
  levels : Sides PlMap
  marketOrders : Sides (Option PriceLevel)
  bookTime : DateTime
  checkVisibility : Bool
  generateDeltas : Bool
  sourceOk : Nat → Bool
  detachedLevels : List PriceLevel
  detachedEntries : List Entry
  publisher : Publisher
  nextRef : Nat

/-- The exceptions of the book, each with the price it names. -/
inductive BookError
  | addLevelExists (price : Price)
  | updateLevelMissing (price : Price)
  | applyLevelMissing (price : Price)
  | deleteLevelMissing (price : Price)
  | addMarketOrderExists (side : Side)
  | updateMarketOrderMissing (side : Side)
  | invalidSide (side : Side)
  | badSide
  | nullPointer
  deriving DecidableEq

/-- The book an operation leaves and the exception it threw, if it threw one. -/
abbrev Outcome := Book × Option BookError

inductive LevelPos
  | limit (s : BookSide) (price : Price)
  | market (s : BookSide)

namespace Book

/-- The constructor; `addr` is where the book is. -/
def new (addr : Nat) (sourceOk : Nat → Bool) : Book where
  addr := addr
  symbol := ""
  partId := ""
  levels := ⟨.empty, .empty⟩
  marketOrders := ⟨none, none⟩
  bookTime := .null
  checkVisibility := false
  generateDeltas := false
  sourceOk := sourceOk
  detachedLevels := []
  detachedEntries := []
  publisher := ⟨0, none, .new 0⟩
  nextRef := 0

def fresh (b : Book) (i : Nat) : Ref := ⟨b.addr, b.nextRef + i⟩

/-! ## Levels of the book -/

def findLevel (b : Book) (s : BookSide) (p : Price) : Option PriceLevel := (b.levels.get s).find? p

def setLevels (b : Book) (s : BookSide) (m : PlMap) : Book :=
  { b with levels := b.levels.set s m }

/-- `bookSide.insert`, or a change of the level found at `p`. -/
def putLevel (b : Book) : LevelPos → PriceLevel → Book
  | .limit s p, l => b.setLevels s ((b.levels.get s).insert p l)
  | .market s, l => { b with marketOrders := b.marketOrders.set s (some l) }

/-- `bookSide.erase`. -/
def eraseLevel (b : Book) (s : BookSide) (p : Price) : Book :=
  b.setLevels s ((b.levels.get s).erase p)

/-- Whether an entry of the level counts: its source is looked at only when the level is
linked to a book that checks source states. -/
def counts (b : Book) (l : PriceLevel) (e : Entry) : Bool :=
  !(l.book == some b.addr && b.checkVisibility) || e.isVisible b.sourceOk

/-- Whether the level reports its changes to this book. -/
def reports (b : Book) (l : PriceLevel) : Bool := l.book == some b.addr && b.generateDeltas

/-- The first entry at address `ref` in a map, with its price and level. -/
def locateIn (m : PlMap) (ref : Ref) : Option (Price × PriceLevel × Entry) :=
  m.toList.findSome? fun a => (a.2.entryList.find? (·.ref == ref)).map fun e => (a.1, a.2, e)

/-- The first entry at address `ref` in the book, with its level and where that is kept. -/
def locate (b : Book) (ref : Ref) : Option (LevelPos × PriceLevel × Entry) :=
  match locateIn b.levels.bid ref, locateIn b.levels.ask ref with
  | some (p, l, e), _ => some (.limit .bid p, l, e)
  | none, some (p, l, e) => some (.limit .ask p, l, e)
  | none, none =>
    let inMarket (s : BookSide) : Option (LevelPos × PriceLevel × Entry) := do
      let l ← b.marketOrders.get s
      let e ← l.entryList.find? (·.ref == ref)
      pure (.market s, l, e)
    (inMarket .bid).or (inMarket .ask)

/-! ## The publishing lists -/

/-- `generateDeltaMsgs (true)`. -/
def generateDeltaMsgs (b : Book) : Book :=
  let x := b.publisher.complexDelta
  { b with generateDeltas := true,
           publisher := { b.publisher with complexDelta := { x with conflateDeltas := true } } }

/-- `addDelta`, where the book generates delta messages. -/
def publish (b : Book) (entry : Option Entry) (l : PriceLevel) (size : Int) (plAction : Action)
    (entryAction : Action) : Book :=
  { b with publisher :=
      if b.generateDeltas then b.publisher.addDelta ⟨entry, l, size, plAction, entryAction⟩
      else b.publisher }

def cleanupDetached (b : Book) : Book := { b with detachedLevels := [], detachedEntries := [] }

/-- `detach (entry)`, `l` being the level the entry is wired to, from whose list it is already
erased. -/
def detachEntry (b : Book) (l : PriceLevel) (e : Entry) : Book :=
  { b with detachedEntries := b.detachedEntries ++ [e] }.publish (some e) l l.sizeChange
    (if l.numEntriesTotal = 0 then .delete else .update) .delete

/-- `detach (level)`. -/
def detachLevel (b : Book) (l : PriceLevel) : Book :=
  match l.orderType, l.side.book? with
  | .market, some s => { b with marketOrders := b.marketOrders.set s none }
  | _, none => b
  | _, some s =>
    match b.findLevel s l.price with
    | none => b
    | some _ => { b.eraseLevel s l.price with detachedLevels := b.detachedLevels ++ [l] }

/-! ## Operations on a level of the book -/

/-- The delta a level reports when an entry was added to it. -/
def addEntryDelta (l : PriceLevel) (e : Entry) : BasicDelta :=
  ⟨some { e with priceLevel := some l.ref }, l, l.sizeChange,
    if l.numEntriesTotal > 1 then .update else .add, .add⟩

/-- `addEntry` of the level. -/
def levelAddEntry (b : Book) (pos : LevelPos) (l : PriceLevel) (e : Entry) : Book :=
  let l' := l.addEntry (b.counts l) e
  { b with publisher :=
      if b.reports l then b.publisher.addDelta (addEntryDelta l' e)
      else b.publisher }.putLevel pos l'

/-- `eraseEntryByIterator` of the level, at its first entry that satisfies `p`. -/
def levelEraseEntry (b : Book) (pos : LevelPos) (l : PriceLevel) (p : Entry → Bool) : Book :=
  match l.entryList.find? p with
  | none => b
  | some e =>
    let erased := { l with entries := some (l.entryList.eraseP p) }
    (if l.book = some b.addr then b.detachEntry erased e else b).putLevel pos
      (l.eraseEntryByIterator (b.counts l) p)

/-- `updateEntry` of the level.  `owner` is the level the argument's own pointer leads to: the
delta reported for the change names it, not the level that was changed. -/
def levelUpdateEntry (b : Book) (pos : LevelPos) (l : PriceLevel) (e : Entry)
    (owner : Option PriceLevel) : Outcome :=
  let b' := b.putLevel pos (l.updateEntry e)
  match l.entryList.find? (fun x => x.id == e.id), b.reports l, owner with
  | some _, true, some o => (b'.publish (some e) o o.sizeChange .update .update, none)
  | some _, true, none => (b', some .nullPointer)
  | _, _, _ => (b', none)

/-- `removeEntryById` of the level. -/
def levelRemoveEntryById (b : Book) (pos : LevelPos) (l : PriceLevel) (e : Entry) : Book :=
  let l := { l with entries := some l.entryList }
  (b.putLevel pos l).levelEraseEntry pos l fun x => x.id == e.id

/-- The reports `copy` makes while it adds the copied entries one by one. -/
def reportCopies (counts : Entry → Bool) (x : Publisher) (l : PriceLevel) :
    List Entry → Publisher
  | [] => x
  | e :: es =>
    let l' := l.addEntry counts e
    reportCopies counts (x.addDelta (addEntryDelta l' e)) l' es

/-- `copy` of the level at `pos`, which is still linked while the entries are copied. -/
def levelCopy (b : Book) (pos : LevelPos) (l rhs : PriceLevel) : Book :=
  let l' := l.copy b.fresh rhs
  let cleared := { l with entries := some [], numEntries := 0, numEntriesTotal := 0 }
  { b with
    nextRef := b.nextRef + rhs.entryList.length
    publisher :=
      if b.reports l then reportCopies (b.counts l) b.publisher cleared l'.entryList
      else b.publisher }.putLevel pos l'

/-- `new MamdaOrderBookPriceLevel (level)`, linked to the book. -/
def newLevelCopy (b : Book) (rhs : PriceLevel) : PriceLevel :=
  (PriceLevel.copyAt (b.fresh 0) (fun i => b.fresh (i + 1)) rhs).setOrderBook b.addr

/-- The memory `newLevelCopy` takes. -/
def takeLevelCopy (b : Book) (rhs : PriceLevel) : Book :=
  { b with nextRef := b.nextRef + 1 + rhs.entryList.length }

end Book

end Mamda
