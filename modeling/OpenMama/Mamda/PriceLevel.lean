import OpenMama.Lib.FirstMatch
import OpenMama.Mamda.OrderBookTypes

/-!
# `MamdaOrderBookPriceLevel`

A price level and the operations of `MamdaOrderBookPriceLevelImpl`, as functions
of the level alone.  Whether an entry counts towards the size and the number of
entries depends on the book the level is linked to (`mBook->getCheckSourceState`)
and on the entry's source; an operation takes that test as `counts`.  The deltas
the same operations report to the book are added where the book calls them
(`Book.levelUpdateEntry` and the like).
-/

namespace Mamda

open Mama Lib

/-- `MamdaOrderBookPriceLevelImpl`.  `entries` is `none` while `mEntries` is null; `book` is
the address of the linked book. -/
structure PriceLevel where
  ref : Ref
  price : Price
  size : Nat
  sizeChange : Nat
  numEntries : Nat
  numEntriesTotal : Nat
  side : Side
  action : Action
  time : DateTime
  entries : Option (List Entry)
  book : Option Nat
  orderType : OrderType
  deriving DecidableEq

namespace PriceLevel

/-- `MamdaOrderBookPriceLevel (price, side)`. -/
def new (ref : Ref) (price : Price) (side : Side) : PriceLevel where
  ref := ref
  price := price
  size := 0
  sizeChange := 0
  numEntries := 0
  numEntriesTotal := 0
  side := side
  action := .add
  time := .null
  entries := none
  book := none
  orderType := .limit

def entryList (l : PriceLevel) : List Entry := l.entries.getD []

def empty (l : PriceLevel) : Bool := l.entryList.isEmpty

def setTime (l : PriceLevel) (t : DateTime) : PriceLevel := { l with time := t }

def setOrderBook (l : PriceLevel) (book : Nat) : PriceLevel := { l with book := some book }

/-- `setSize`: a size that is none becomes zero. -/
def setSize (l : PriceLevel) (size : Int) : PriceLevel := { l with size := size.toNat }

/-- `setNumEntries`: the total is the length of the list once there is one. -/
def setNumEntries (l : PriceLevel) (n : Nat) : PriceLevel :=
  { l with numEntries := n,
           numEntriesTotal := match l.entries with
             | some es => es.length % 2 ^ 32
             | none => n }

def setDetails (l rhs : PriceLevel) : PriceLevel :=
  { l with sizeChange := rhs.size - l.size, size := rhs.size, numEntries := rhs.numEntries,
           numEntriesTotal := rhs.numEntriesTotal, time := rhs.time, orderType := rhs.orderType }

def addEntry (counts : Entry → Bool) (l : PriceLevel) (e : Entry) : PriceLevel :=
  { l with entries := some (l.entryList ++ [{ e with priceLevel := some l.ref }]),
           numEntries := if counts e then u32Inc l.numEntries else l.numEntries,
           size := if counts e then l.size + e.size else l.size,
           numEntriesTotal := u32Inc l.numEntriesTotal }

/-- `updateEntry`: the first entry of that id takes the details; the size of the level is
left alone. -/
def updateEntry (l : PriceLevel) (e : Entry) : PriceLevel :=
  { l with entries := some (updateFirst (fun x => x.id == e.id) (·.setDetails e) l.entryList) }

/-- The bookkeeping of `eraseEntryByIterator` for an entry that leaves the list. -/
def uncountEntry (counts : Entry → Bool) (l : PriceLevel) (e : Entry) : PriceLevel :=
  { l with size := if counts e then l.size - e.size else l.size,
           numEntries := if counts e then u32Dec l.numEntries else l.numEntries,
           numEntriesTotal := u32Dec l.numEntriesTotal }

/-- `eraseEntryByIterator`, at the first entry that satisfies `p`. -/
def eraseEntryByIterator (counts : Entry → Bool) (l : PriceLevel) (p : Entry → Bool) :
    PriceLevel :=
  match l.entryList.find? p with
  | none => l
  | some e => { l.uncountEntry counts e with entries := some (l.entryList.eraseP p) }

/-- `removeEntry`: by pointer. -/
def removeEntry (counts : Entry → Bool) (l : PriceLevel) (ref : Ref) : PriceLevel :=
  l.eraseEntryByIterator counts fun x => x.ref == ref

/-- The copies `copy` makes of a list of entries, at the addresses `fresh` gives out. -/
def copyEntries (fresh : Nat → Ref) (level : Ref) (es : List Entry) : List Entry :=
  es.mapIdx fun i e => { e.copyAt (fresh i) with priceLevel := some level }

def copyAt (ref : Ref) (fresh : Nat → Ref) (rhs : PriceLevel) : PriceLevel :=
  { rhs with ref := ref, entries := rhs.entries.map (copyEntries fresh ref), book := none }

/-- `copy`.  The entries of the level are deleted before those of `rhs` are read, so a level
copied onto itself ends with none; the link to the book is dropped. -/
def copy (fresh : Nat → Ref) (l rhs : PriceLevel) : PriceLevel :=
  if l.ref = rhs.ref then
    match l.entries with
    | some _ => { l with entries := some [], numEntries := 0, numEntriesTotal := 0, book := none }
    | none => { l with book := none }
  else
    { rhs with
      ref := l.ref
      entries :=
        match rhs.entries with
        | some es => some (copyEntries fresh l.ref es)
        | none => l.entries.map fun _ => []
      book := none }

/-- `deleteEntriesFromSource`: the entries of the source leave, each uncounted in turn. -/
def deleteEntriesFromSource (counts : Entry → Bool) (source : Source) (l : PriceLevel) :
    PriceLevel :=
  if l.empty then l
  else { (l.entryList.filter (·.isPartOf source)).foldl (uncountEntry counts) l with
         entries := some (l.entryList.filter fun e => !e.isPartOf source) }

/-- `reevaluate`; a level with no entries is left as it is. -/
def reevaluate (counts : Entry → Bool) (l : PriceLevel) : PriceLevel :=
  if l.empty then l
  else { l with size := sumOn counts Entry.size l.entryList,
                numEntries := l.entryList.countP counts % 2 ^ 32 }

end PriceLevel

end Mamda
