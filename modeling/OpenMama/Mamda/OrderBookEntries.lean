import OpenMama.Mamda.OrderBook

/-!
# Entry operations of the book

`addEntry`, `updateEntry`, `deleteEntry`, `addEntriesFromBook`,
`deleteEntriesFromSource` and `reevaluate` of `MamdaOrderBook`.

`updateEntry` and `deleteEntry` take a pointer to an entry.  For a pointer that
does not lead to an entry of the book the result is `none`: the source then
throws, or works on a level of another book.
-/

namespace Mamda

open Mama Lib

namespace Book

/-- Whether the book lets an entry move the size and time of its level. -/
def seesEntry (b : Book) (e : Entry) : Bool := !b.checkVisibility || e.isVisible b.sourceOk

/-- The level's time follows an event of an entry that the book sees. -/
def stampLevel (b : Book) (l : PriceLevel) (e : Entry) (eventTime : DateTime) : PriceLevel :=
  { l with time := if b.seesEntry e then eventTime else l.time }

/-- `findOrCreateLevel`: the level and whether it was there. -/
def findOrCreateLevel (b : Book) (s : BookSide) (p : Price) (side : Side) :
    Book × PriceLevel × Action :=
  match b.findLevel s p with
  | some l => (b, l, .update)
  | none =>
    let l := (PriceLevel.new (b.fresh 0) p side).setOrderBook b.addr
    (({ b with nextRef := b.nextRef + 1 }.putLevel (.limit s p) l).publish none l 0 .add .unknown,
      l, .add)

/-! ## Adding -/

/-- `addEntry (bookSide, entry, price, side, eventTime, delta)`, with the delta it fills in.
The variant for a `double` price relinks the level, that for a `MamaPrice` does not. -/
def addEntry (b : Book) (relink : Bool) (s : BookSide) (p : Price) (e : Entry)
    (eventTime : DateTime) : Book × BasicDelta :=
  let (b, l, plAction) := b.findOrCreateLevel s p s.side
  let l := b.stampLevel l e eventTime
  let l := if relink then l.setOrderBook b.addr else l
  (b.levelAddEntry (.limit s p) l e,
    ⟨some { e with priceLevel := some l.ref }, l.addEntry (b.counts l) e,
      if b.seesEntry e then e.size else 0, plAction, .add⟩)

/-- `addEntry (entryId, entrySize, price, side, eventTime, source, delta)`, which allocates the
entry. -/
def addNewEntry (b : Book) (relink : Bool) (s : BookSide) (p : Price) (id : String) (size : Nat)
    (eventTime : DateTime) (deriv : Option SourceDerivative) : Book × BasicDelta :=
  { b with nextRef := b.nextRef + 1 }.addEntry relink s p
    (Entry.new (b.fresh 0) id size .add eventTime deriv) eventTime

/-! ## Updating -/

/-- The entry after `updateEntry`; an update that keeps the size keeps the time too. -/
def updatedEntry (size : Nat) (eventTime : DateTime) (e : Entry) : Entry :=
  if size = e.size then e else { e with size := size, time := eventTime }

/-- The change `updateEntry` reports for the level. -/
def updateSizeDelta (b : Book) (e : Entry) (size : Nat) : Int :=
  if b.seesEntry e then (size : Int) - e.size else 0

/-- The level after `updateEntry`. -/
def updatedLevel (b : Book) (l : PriceLevel) (e : Entry) (size : Nat) (eventTime : DateTime) :
    PriceLevel :=
  let l' := if size ≠ e.size ∧ b.seesEntry e then
      (l.setSize (l.size + b.updateSizeDelta e size)).setTime eventTime
    else l
  { l' with entries := l.entries.map (updateFirst (·.ref == e.ref) (updatedEntry size eventTime)) }

/-- `updateEntry`, with the delta it fills in. -/
def updateEntry (b : Book) (ref : Ref) (size : Nat) (eventTime : DateTime) :
    Option (Book × BasicDelta) :=
  match b.locate ref with
  | none => none
  | some (pos, l, e) =>
    if e.priceLevel = some l.ref then
      let l' := b.updatedLevel l e size eventTime
      let d : BasicDelta := ⟨some (updatedEntry size eventTime e), l', b.updateSizeDelta e size,
        .update, .update⟩
      some ((b.putLevel pos l').publish d.entry d.level d.plDeltaSize .update .update, d)
    else none

/-! ## Deleting -/

/-- `deleteEntry`, with the delta it fills in when it was given one (`withDelta`). -/
def deleteEntry (b : Book) (ref : Ref) (eventTime : DateTime) (withDelta : Bool) :
    Option (Book × BasicDelta) :=
  match b.locate ref with
  | none => none
  | some (pos, l, e) =>
    if e.priceLevel = some l.ref then
      let l := b.stampLevel l e eventTime
      let b₁ := b.levelEraseEntry pos l (·.ref == ref)
      let l' := l.removeEntry (b.counts l) ref
      let b₂ := if l'.empty then b₁.detachLevel l' else b₁
      let d : BasicDelta := ⟨some e, l', if b.seesEntry e then -e.size else 0,
        if l'.size = 0 then .delete else .update, .delete⟩
      some (if withDelta && !l'.empty then
          b₂.publish d.entry d.level d.plDeltaSize d.plAction d.entryAction
        else b₂, d)
    else none

/-! ## Whole books and sources -/

/-- `addEntriesFromLevel` for the rest of the entries of a level: each is copied and, if the
filter takes the copy, added. -/
def addEntriesFromLevel (b : Book) (s : BookSide) (p : Price) (filter : Entry → Bool) :
    List Entry → Book
  | [] => b
  | e :: es =>
    let copy := e.copyAt (b.fresh 0)
    let b := { b with nextRef := b.nextRef + 1 }
    let b :=
      match b.findLevel s p with
      | some l => if filter copy then b.levelAddEntry (.limit s p) l { copy with action := .add }
                  else b
      | none => b
    b.addEntriesFromLevel s p filter es

/-- One level of `addEntriesFromBook`; a level with no list of entries leaves the time alone. -/
def addLevelEntries (filter : Entry → Bool) (s : BookSide) (b : Book) (bookLevel : PriceLevel) :
    Book :=
  let b := (b.findOrCreateLevel s bookLevel.price bookLevel.side).1
  match bookLevel.entries with
  | none => b
  | some es =>
    let b := b.addEntriesFromLevel s bookLevel.price filter es
    match b.findLevel s bookLevel.price with
    | some l => b.putLevel (.limit s bookLevel.price) (l.setTime bookLevel.time)
    | none => b

def addEntriesFromBook (b book : Book) (filter : Entry → Bool) : Book :=
  let b := book.levels.bid.values.foldl (addLevelEntries filter .bid) b
  book.levels.ask.values.foldl (addLevelEntries filter .ask) b

/-- The reports of the entries that leave a level one by one. -/
def reportDetached (counts : Entry → Bool) (x : Publisher) (l : PriceLevel) :
    List Entry → Publisher
  | [] => x
  | e :: es =>
    reportDetached counts
      (x.addDelta ⟨some e, l, l.sizeChange, if l.numEntriesTotal = 0 then .delete else .update,
        .delete⟩)
      (l.uncountEntry counts e) es

/-- `deleteEntriesFromSource`: a level stays in its map also when no entry is left in it. -/
def deleteEntriesFromSource (b : Book) (source : Source) : Book :=
  let ls := b.levels.bid.values ++ b.levels.ask.values
  let leaving (l : PriceLevel) := l.entryList.filter (·.isPartOf source)
  let after (l : PriceLevel) := l.deleteEntriesFromSource (b.counts l) source
  { b with
    levels := ⟨b.levels.bid.mapVal after, b.levels.ask.mapVal after⟩
    detachedEntries := b.detachedEntries ++
      ls.flatMap fun l => if l.book = some b.addr then leaving l else []
    publisher := ls.foldl
      (fun x l => if b.reports l then reportDetached (b.counts l) x l (leaving l) else x)
      b.publisher }

/-- Every entry of the two maps has a source. -/
def EverySource (b : Book) : Prop :=
  ∀ l ∈ b.levels.bid.values ++ b.levels.ask.values, ∀ e ∈ l.entryList, e.sourceDeriv.isSome

instance (b : Book) : Decidable b.EverySource := by
  unfold EverySource
  infer_instance

def reevaluate (b : Book) : Book :=
  if b.checkVisibility then
    let after (l : PriceLevel) := l.reevaluate (b.counts l)
    { b with
      levels := ⟨b.levels.bid.mapVal after, b.levels.ask.mapVal after⟩
      marketOrders := ⟨b.marketOrders.bid.map after, b.marketOrders.ask.map after⟩ }
  else b

/-- A new book that may check source states and may publish. -/
def start (addr : Nat) (sourceOk : Nat → Bool) (check publish : Bool) : Book :=
  let b := { Book.new addr sourceOk with checkVisibility := check }
  if publish then b.generateDeltaMsgs else b

end Book

/-! ## Runs of entry operations -/

/-- The operations on entries; `relink` tells the two `addEntry` apart. -/
inductive EntryOp
  | addEntry (relink : Bool) (side : Side) (price : Price) (e : Entry) (eventTime : DateTime)
  | updateEntry (ref : Ref) (size : Nat) (eventTime : DateTime)
  | deleteEntry (ref : Ref) (eventTime : DateTime) (withDelta : Bool)
  | addEntriesFromBook (book : Book) (filter : Entry → Bool)
  | deleteEntriesFromSource (source : Source)

namespace EntryOp

/-- One call.  There is no result for an entry that is added while it is in the book, for a
pointer that leads to no entry of the book, for a book added to itself, which does not
return: the list it walks grows under it, and for `deleteEntriesFromSource` where an entry has
no source to ask. -/
def step (b : Book) : EntryOp → Option Book
  | .addEntry relink side p e t =>
    match b.locate e.ref, side.book? with
    | some _, _ => none
    | none, none => some b
    | none, some s => some (b.addEntry relink s p e t).1
  | .updateEntry ref n t => (b.updateEntry ref n t).map Prod.fst
  | .deleteEntry ref t w => (b.deleteEntry ref t w).map Prod.fst
  | .addEntriesFromBook book filter =>
    if book.addr = b.addr then none else some (b.addEntriesFromBook book filter)
  | .deleteEntriesFromSource source =>
    if b.EverySource then some (b.deleteEntriesFromSource source) else none

def run (b : Book) (ops : List EntryOp) : Option Book := ops.foldlM step b

end EntryOp

end Mamda
