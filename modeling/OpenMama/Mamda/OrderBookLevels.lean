import OpenMama.Mamda.BookLevels

/-!
# Level operations of the book

`addLevel`, `updateLevel` and `deleteLevel`, and `apply` of another book, of a
delta and of a list of deltas, with `copy` on top.

Several of these throw after the change is made: an added level that is there
already is updated, an updated one that is missing is added, and then the
exception leaves.  The book they leave is part of the result.
-/

namespace Mamda

open Mama Lib

namespace Book

/-- Sets the link of the level at `pos` to this book. -/
def relink (b : Book) (pos : LevelPos) : Book :=
  match b.levelAt pos with
  | some l => b.putLevel pos (l.setOrderBook b.addr)
  | none => b

/-- `setDetails` of the level at `pos`. -/
def setLevelDetails (b : Book) (pos : LevelPos) (rhs : PriceLevel) : Book :=
  match b.levelAt pos with
  | some l => b.putLevel pos (l.setDetails rhs)
  | none => b

/-! ## A level given by the caller -/

/-- The branch of `addLevelSide` for a new price: a linked copy is inserted. -/
def insertLevelCopy (b : Book) (s : BookSide) (level : PriceLevel) : Book :=
  let copy := b.newLevelCopy level
  ((b.takeLevelCopy level).putLevel (.limit s level.price) copy).publish none copy
    copy.sizeChange .add .unknown

/-- The branch of `updateLevelSide` for a price that is there: the level is overwritten and the
link that `copy` dropped stays dropped. -/
def overwriteLevel (b : Book) (s : BookSide) (l level : PriceLevel) : Book :=
  (b.levelCopy (.limit s level.price) l level).publish none level level.sizeChange .update .unknown

/-- `addLevelSide (bookSide, level)`. -/
def addLevelSide (b : Book) (s : BookSide) (level : PriceLevel) : Outcome :=
  match b.findLevel s level.price with
  | none => (b.insertLevelCopy s level, none)
  | some l => (b.overwriteLevel s l level, some (.addLevelExists level.price))

/-- `addLevelSideNoCopy`: the caller's level itself goes into the map, with the link it has. -/
def addLevelSideNoCopy (b : Book) (s : BookSide) (level : PriceLevel) : Outcome :=
  match b.findLevel s level.price with
  | none =>
    ((b.putLevel (.limit s level.price) level).publish none level level.sizeChange .add .unknown,
      none)
  | some l => (b.overwriteLevel s l level, some (.addLevelExists level.price))

/-- `updateLevelSide (bookSide, level)`. -/
def updateLevelSide (b : Book) (s : BookSide) (level : PriceLevel) : Outcome :=
  match b.findLevel s level.price with
  | some l => (b.overwriteLevel s l level, none)
  | none => (b.insertLevelCopy s level, some (.updateLevelMissing level.price))

/-- `deleteLevelSide (bookSide, level)`. -/
def deleteLevelSide (b : Book) (s : BookSide) (level : PriceLevel) : Outcome :=
  match b.findLevel s level.price with
  | some _ =>
    ((b.eraseLevel s level.price).publish none level level.sizeChange .delete .unknown, none)
  | none => (b, some (.deleteLevelMissing level.price))

/-- A level operation on the half of the book the level's side names; none for an unknown
side. -/
def onSide (b : Book) (level : PriceLevel)
    (op : Book → BookSide → PriceLevel → Outcome) : Outcome :=
  match level.side.book? with
  | some s => op b s level
  | none => (b, none)

def addLevel (b : Book) (level : PriceLevel) : Outcome := b.onSide level addLevelSideNoCopy

def updateLevel (b : Book) (level : PriceLevel) : Outcome := b.onSide level updateLevelSide

def deleteLevel (b : Book) (level : PriceLevel) : Outcome := b.onSide level deleteLevelSide

/-! ## Entries of a delta -/

/-- An entry applied to the level at `pos` by its action. -/
def applyEntry (b : Book) (pos : LevelPos) (action : Action) (e : Entry)
    (owner : Option PriceLevel) : Outcome :=
  match b.levelAt pos, action with
  | some l, .add => (b.levelAddEntry pos l e, none)
  | some l, .update => b.levelUpdateEntry pos l e owner
  | some l, .delete => (b.levelRemoveEntryById pos l e, none)
  | _, _ => (b, none)

/-- The loop of `applyLevelSide (bookSide, level)`: each entry is copied, so its copy is wired
to no level. -/
def applyEntries (b : Book) (pos : LevelPos) : List Entry → Outcome
  | [] => (b, none)
  | e :: es =>
    match { b with nextRef := b.nextRef + 1 }.applyEntry pos e.action (e.copyAt (b.fresh 0)) none
      with
    | (b', none) => b'.applyEntries pos es
    | r => r

def applyDeltaEntry (b : Book) (pos : LevelPos) (d : BasicDelta) : Outcome :=
  match d.entry, d.entryAction with
  | some e, .add =>
    { b with nextRef := b.nextRef + 1 }.applyEntry pos .add (e.copyAt (b.fresh 0)) none
  | some e, a => b.applyEntry pos a e (e.priceLevel.map fun _ => d.level)
  | none, _ => (b, none)

/-! ## Applying another book -/

def shownEntries (book : Book) (l : PriceLevel) : List Entry :=
  l.entryList.filter (book.counts l)

/-- `applyLevelSide (bookSide, level)`. -/
def applyLevelSide (b : Book) (s : BookSide) (level : PriceLevel) (shown : List Entry) : Outcome :=
  match b.findLevel s level.price with
  | some _ =>
    match b.applyEntries (.limit s level.price) shown with
    | (b', none) => (b'.setLevelDetails (.limit s level.price) level, none)
    | r => r
  | none => (b.insertLevelCopy s level, some (.applyLevelMissing level.price))

/-- `applySide (bookSide, deltaSide)` for one level. -/
def applyLevel (b : Book) (s : BookSide) (book : Book) (level : PriceLevel) : Outcome :=
  match level.action with
  | .add => b.addLevelSide s level
  | .update => b.applyLevelSide s level (book.shownEntries level)
  | .delete => b.deleteLevelSide s level
  | .unknown => (b, none)

/-- `applySide (bookSide, deltaSide)`: the first exception ends it. -/
def applySide (b : Book) (s : BookSide) (book : Book) : List PriceLevel → Outcome
  | [] => (b, none)
  | l :: ls =>
    match b.applyLevel s book l with
    | (b', none) => b'.applySide s book ls
    | r => r

/-- A linked copy becomes the market order level of a side. -/
def insertMarketCopy (b : Book) (s : BookSide) (level : PriceLevel) : Book :=
  (b.takeLevelCopy level).putLevel (.market s) (b.newLevelCopy level)

/-- `addMarketOrderLevelSide`; an existing level is overwritten and linked again. -/
def addMarketOrderLevelSide (b : Book) (s : BookSide) (level : PriceLevel) : Outcome :=
  match b.marketOrders.get s with
  | none => (b.insertMarketCopy s level, none)
  | some l => ((b.levelCopy (.market s) l level).relink (.market s),
      some (.addMarketOrderExists s.side))

/-- `applyMarketOrderLevelSide`, the entries being applied by `entries`. -/
def applyMarketOrderLevelSide (b : Book) (s : BookSide) (level : PriceLevel)
    (entries : Book → Outcome) : Outcome :=
  match b.marketOrders.get s with
  | some _ =>
    match entries b with
    | (b', none) => (b'.setLevelDetails (.market s) level, none)
    | r => r
  | none => (b.insertMarketCopy s level, some (.updateMarketOrderMissing s.side))

def deleteMarketOrderLevelSide (b : Book) (s : BookSide) : Outcome :=
  ({ b with marketOrders := b.marketOrders.set s none }, none)

def applyMarketOrderSide (b : Book) (s : BookSide) (action : Action) (level : PriceLevel)
    (entries : Book → Outcome) : Outcome :=
  match action with
  | .add => b.addMarketOrderLevelSide s level
  | .update => b.applyMarketOrderLevelSide s level entries
  | .delete => b.deleteMarketOrderLevelSide s
  | .unknown => (b, none)

/-- The market orders of one side of a book that is applied. -/
def applyMarketOrders (b : Book) (s : BookSide) (book : Book) : Outcome :=
  match book.marketOrders.get s with
  | none => (b, none)
  | some level =>
    b.applyMarketOrderSide s level.action level fun b =>
      b.applyEntries (.market s) (book.shownEntries level)

/-- Does `f` next unless an exception has been thrown. -/
def Outcome.andThen (r : Outcome) (f : Book → Outcome) : Outcome :=
  match r with
  | (b, none) => f b
  | (b, some err) => (b, some err)

/-- `apply (deltaBook)`. -/
def apply (b book : Book) : Outcome :=
  let r := applySide { b with symbol := book.symbol } .bid book book.levels.bid.values
  let r := Outcome.andThen r fun b => b.applySide .ask book book.levels.ask.values
  let r := Outcome.andThen r fun b => b.applyMarketOrders .bid book
  let r := Outcome.andThen r fun b => b.applyMarketOrders .ask book
  Outcome.andThen r fun b => ({ b with partId := book.partId }, none)

def clear (b : Book) : Book :=
  { b.cleanupDetached with
    levels := ⟨.empty, .empty⟩
    marketOrders := ⟨none, none⟩
    publisher := if b.generateDeltas then b.publisher.clear else b.publisher }

def copy (b rhs : Book) : Outcome :=
  { b.clear with checkVisibility := rhs.checkVisibility }.apply rhs

/-! ## Applying a delta -/

/-- The branch of `addLevelSide (bookSide, delta)` for a new price. -/
def insertDeltaLevel (b : Book) (s : BookSide) (d : BasicDelta) : Book :=
  let copy := b.newLevelCopy d.level
  ((b.takeLevelCopy d.level).putLevel (.limit s d.level.price) copy).publish d.entry copy
    copy.sizeChange .add .unknown

/-- The branch of `updateLevelSide (bookSide, delta)` for a price that is there; it links the
level again. -/
def overwriteDeltaLevel (b : Book) (s : BookSide) (l : PriceLevel) (d : BasicDelta) : Book :=
  let pos := LevelPos.limit s d.level.price
  ((b.levelCopy pos l d.level).relink pos).publish d.entry d.level d.level.sizeChange .update
    .unknown

/-- `addLevelSide (bookSide, delta)`. -/
def addDeltaLevelSide (b : Book) (s : BookSide) (d : BasicDelta) : Outcome :=
  match b.findLevel s d.level.price with
  | none => (b.insertDeltaLevel s d, none)
  | some l => (b.overwriteDeltaLevel s l d, some (.addLevelExists d.level.price))

/-- `applyLevelSide (bookSide, delta)`. -/
def applyDeltaLevelSide (b : Book) (s : BookSide) (d : BasicDelta) : Outcome :=
  match b.findLevel s d.level.price with
  | some _ =>
    match b.applyDeltaEntry (.limit s d.level.price) d with
    | (b', none) => (b'.setLevelDetails (.limit s d.level.price) d.level, none)
    | r => r
  | none => (b.insertDeltaLevel s d, some (.applyLevelMissing d.level.price))

/-- `deleteLevelSide (bookSide, delta)`: a publishing book reads the action of the delta's
entry. -/
def deleteDeltaLevelSide (b : Book) (s : BookSide) (d : BasicDelta) : Outcome :=
  match b.findLevel s d.level.price, b.generateDeltas, d.entry with
  | none, _, _ => (b, some (.deleteLevelMissing d.level.price))
  | some _, false, _ => (b.eraseLevel s d.level.price, none)
  | some _, true, none => (b.eraseLevel s d.level.price, some .nullPointer)
  | some _, true, some e =>
    ((b.eraseLevel s d.level.price).publish d.entry d.level d.level.sizeChange .delete e.action,
      none)

/-- `applySide (bookSide, delta)`. -/
def applyDeltaSide (b : Book) (s : BookSide) (d : BasicDelta) : Outcome :=
  match d.plAction with
  | .add => b.addDeltaLevelSide s d
  | .update => b.applyDeltaLevelSide s d
  | .delete => b.deleteDeltaLevelSide s d
  | .unknown => (b, none)

/-- `apply (delta)`. -/
def applyDelta (b : Book) (d : BasicDelta) : Outcome :=
  match d.level.orderType, d.level.side.book? with
  | .market, some s =>
    b.applyMarketOrderSide s d.plAction d.level fun b => b.applyDeltaEntry (.market s) d
  | .market, none => (b, if d.plAction = .unknown then none else some (.invalidSide d.level.side))
  | _, some s => b.applyDeltaSide s d
  | _, none => (b, some .badSide)

/-- `apply (deltaList)`. -/
def applyDeltas (b : Book) : List BasicDelta → Outcome
  | [] => (b, none)
  | d :: ds => Outcome.andThen (b.applyDelta d) fun b => b.applyDeltas ds

end Book

end Mamda
