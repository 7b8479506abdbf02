import OpenMama.Mamda.BookMsgFields
import OpenMama.Mamda.OrderBookLevels

/-!
# `MamdaOrderBookListener`

The listener applies book messages to its book and notes what it did as deltas.
It is set up as the constructor leaves it: no entry manager and no market orders;
whether it processes entries is left open.  Deltas are conflated when the list
that holds them does so.

While a level message is handled the source holds a pointer to the level, which
stays valid when the level is detached from the book.  Here the level is passed
along, and `Book.storeLevel` writes it back to wherever it is kept.

An exception is caught when the message has been handled as far as it got, so a
step that throws returns the listener it leaves (`Stop.thrown`).  `Stop.crash`
is a read past the end of a vector.
-/

namespace Mamda

open Mama Lib

/-! ## Levels behind a pointer -/

def PriceLevel.findEntry (l : PriceLevel) (id : String) : Option Entry :=
  l.entryList.find? fun x => x.id == id

namespace Book

/-- Writes a level back to where it is kept: its place in the book, or among the detached. -/
def storeLevel (b : Book) (l : PriceLevel) : Book :=
  match l.side.book? with
  | none => b
  | some s =>
    match b.findLevel s l.price with
    | some l' =>
      if l'.ref = l.ref then b.putLevel (.limit s l.price) l
      else { b with detachedLevels := b.detachedLevels.map fun x => if x.ref = l.ref then l else x }
    | none =>
      { b with detachedLevels := b.detachedLevels.map fun x => if x.ref = l.ref then l else x }

/-- `findOrCreateEntry` where the id is not there: an entry of size zero is appended, which
counts without a look at its source and reports the level as updated. -/
def levelNewEntry (b : Book) (l : PriceLevel) (id : String) : Book × PriceLevel × Entry :=
  let e : Entry := { Entry.create (b.fresh 0) id with priceLevel := some l.ref }
  let l' : PriceLevel :=
    { l with entries := some (l.entryList ++ [e]), numEntries := u32Inc l.numEntries,
             numEntriesTotal := u32Inc l.numEntriesTotal }
  let b := { b with nextRef := b.nextRef + 1 }.storeLevel l'
  (if b.reports l then
    b.publish (some e) l' l'.sizeChange (if l'.numEntriesTotal = 0 then .add else .update) .add
   else b, l', e)

/-- `removeEntry` of a level behind a pointer. -/
def removeLevelEntry (b : Book) (l : PriceLevel) (ref : Ref) : Book × PriceLevel :=
  match l.entryList.find? (·.ref == ref) with
  | none => (b, l)
  | some e =>
    let erased := { l with entries := some (l.entryList.eraseP (·.ref == ref)) }
    let l' := l.removeEntry (b.counts l) ref
    ((if l.book = some b.addr then b.detachEntry erased e else b).storeLevel l', l')

end Book

/-! ## The listener -/

/-- `MamdaOrderBookListenerImpl`.  `deltas` holds the deltas of the message: the first apart,
from the second on in the list. -/
structure Listener where
  book : Book
  fields : BookMsgFields
  processesEntries : Bool
  haveEntries : Bool
  gotInitial : Bool
  eventSeqNum : Nat
  prevSenderId : Nat
  isConsistent : Bool
  deltas : Publisher

/-- How a message can end early: with an exception, which leaves the listener as it is by then,
or by leaving the memory it owns. -/
inductive Stop
  | thrown (x : Listener)
  | crash

abbrev Handled (α : Type) := Except Stop α

namespace Listener

/-- A new listener with a book of its own at `addr`; `junk` is what the members that the
constructor does not initialise hold. -/
def new (addr : Nat) (sourceOk : Nat → Bool) (junk : Nat) : Listener where
  book := .new addr sourceOk
  fields := .cleared
  processesEntries := true
  haveEntries := false
  gotInitial := false
  eventSeqNum := 0
  prevSenderId := junk
  isConsistent := true
  deltas := ⟨0, none, .new junk⟩

/-- The test `mProcessEntries || mBookType == 1` of the updaters. -/
def takesEntries (x : Listener) : Bool := x.processesEntries || x.fields.bookType == 1

/-- The test `(!mProcessEntries && !mBookType == 1) || mBookType == 2`: the negation binds
first, so the first half asks for book type zero. -/
def levelsOnly (x : Listener) : Bool :=
  (!x.processesEntries && x.fields.bookType == 0) || x.fields.bookType == 2

def addDelta (x : Listener) (e : Option Entry) (l : PriceLevel) (plAction entryAction : Action) :
    Listener :=
  { x with deltas := x.deltas.addDelta ⟨e, l, x.fields.plSizeChange, plAction, entryAction⟩ }

/-! ## Levels -/

/-- `processLevelPart1`: the level the message is about, or none for a DELETE of a level that is
not there.  A level that is deleted leaves the book at once. -/
def processLevelPart1 (x : Listener) : Handled (Listener × Option PriceLevel) :=
  match x.fields.plSide.book? with
  | none => .error (.thrown x)
  | some s =>
    let stamp (l : PriceLevel) : PriceLevel :=
      if x.fields.plTime.empty then l else l.setTime x.fields.plTime
    if x.fields.plAction = .delete then
      match x.book.findLevel s x.fields.plPrice with
      | none => .ok (x, none)
      | some l =>
        let l' := stamp l
        .ok ({ x with book := (x.book.detachLevel l).storeLevel l' }, some l')
    else
      let (b, l, action) := x.book.findOrCreateLevel s x.fields.plPrice x.fields.plSide
      let l' := stamp l
      .ok ({ x with book := b.storeLevel l', fields := { x.fields with plAction := action } },
        some l')

def processLevelPart2 (x : Listener) (l : PriceLevel) : Listener :=
  let l := l.setSize x.fields.plSize
  let l := if x.fields.bookType ≠ 1 then l.setNumEntries x.fields.plNumEntries else l
  let x := { x with book := x.book.storeLevel l }
  let x :=
    if x.levelsOnly then
      { x.addDelta none l x.fields.plAction .unknown with
        book := x.book.publish none l x.fields.plSizeChange x.fields.plAction .unknown }
    else x
  if x.fields.bookType = 1 ∧ x.haveEntries = false then { x with book := x.book.detachLevel l }
  else x

/-! ## Entries -/

/-- A size and a size change of the level that the message does not give follow from the entry. -/
def noteSizes (f : BookMsgFields) (l : PriceLevel) (e : Entry) (newEntry : Bool) : BookMsgFields :=
  let old : Int := if newEntry then 0 else e.size
  let f := if f.hasPlSizeChange then f
    else { f with plSizeChange := f.plSizeChange + (f.entrySize - old) }
  if f.hasPlSize then f else { f with plSize := l.size + f.entrySize - old }

/-- The entry with the size, time and status of the message. -/
def changedEntry (f : BookMsgFields) (e : Entry) : Entry :=
  { e with size := f.entrySize, time := f.entryTime, status := f.entryStatus }

/-- The level with that entry in place; without a time of its own it takes a later one of the
entry. -/
def changedLevel (f : BookMsgFields) (l : PriceLevel) (e : Entry) : PriceLevel :=
  let l : PriceLevel :=
    { l with entries := l.entries.map (updateFirst (·.ref == e.ref) fun _ => changedEntry f e) }
  if f.hasPlTime = false ∧ 0 < f.entryTime.compare l.time then l.setTime f.entryTime else l

/-- A deleted entry leaves the level; of an entry book a level without entries leaves the book. -/
def dropEntry (x : Listener) (l : PriceLevel) (ref : Ref) (plAction : Action) :
    Listener × PriceLevel × Action :=
  let (b, l) := x.book.removeLevelEntry l ref
  if x.fields.bookType = 1 ∧ l.numEntriesTotal = 0 then
    ({ x with book := b.detachLevel l, fields := { x.fields with plAction := .delete } }, l,
      .delete)
  else ({ x with book := b }, l, plAction)

/-- The rest of `processEntry` once the entry is found or made. -/
def changeEntry (x : Listener) (l : PriceLevel) (plAction entryAction : Action) (e : Entry)
    (newEntry : Bool) : Listener × PriceLevel :=
  let f := noteSizes x.fields l e newEntry
  let l := changedLevel f l e
  let x := { x with fields := f, book := x.book.storeLevel l }
  let (x, l, plAction) :=
    if entryAction = .delete then x.dropEntry l e.ref plAction else (x, l, plAction)
  let x := x.addDelta (some (changedEntry f e)) l plAction entryAction
  ({ x with book := x.book.publish (some (changedEntry f e)) l x.fields.plSizeChange plAction
              entryAction,
            haveEntries := true }, l)

/-- `processEntry`, for the entry the fields describe.  An entry without an id is passed over; a
DELETE of an entry that is not there leaves the level's size alone. -/
def processEntry (x : Listener) (l : PriceLevel) (plAction : Action) : Listener × PriceLevel :=
  match x.fields.entryId with
  | none => (x, l)
  | some id =>
    if id = "" then (x, l)
    else if x.fields.entryAction = .delete then
      match l.findEntry id with
      | none =>
        if x.fields.bookType = 1 ∧ x.fields.hasPlSize = false then
          ({ x with fields := { x.fields with plSize := l.size } }, l)
        else (x, l)
      | some e => x.changeEntry l plAction .delete e false
    else
      match l.findEntry id with
      | some e => x.changeEntry l plAction x.fields.entryAction e false
      | none =>
        let (b, l, e) := x.book.levelNewEntry l id
        { x with book := b }.changeEntry l plAction
          (if x.fields.entryAction = Action.update then .add else x.fields.entryAction) e true

def processEntrySubMsg (plAction : Action) (r : Listener × PriceLevel) (msg : EntryMsg) :
    Listener × PriceLevel :=
  let x := { r.1 with fields := r.1.fields.processEntryMessage r.1.takesEntries msg }
  let (x, l) := x.processEntry r.2 plAction
  ({ x with fields := x.fields.clearEntry }, l)

/-- A level DELETE that names no entries: every entry the level shows is removed and reported. -/
def deleteShownEntries (x : Listener) (l : PriceLevel) : List Entry → Listener × PriceLevel
  | [] => (x, l)
  | e :: es =>
    let e' := { e with action := .delete }
    let l : PriceLevel :=
      { l with entries := l.entries.map (updateFirst (·.ref == e.ref) fun _ => e') }
    let (b, l) := x.book.removeLevelEntry l e.ref
    ({ x with book := b }.addDelta (some e') l .delete .delete).deleteShownEntries l es

def processEntries (x : Listener) (l : PriceLevel) (plAction : Action) :
    Handled (Listener × PriceLevel) :=
  if x.levelsOnly then .ok (x, l)
  else if x.fields.plNumAttach = 0 then
    let shown := l.entryList.filter (x.book.counts l)
    if plAction ≠ .delete ∨ shown = [] then .ok (x.addDelta none l plAction .unknown, l)
    else .ok (x.deleteShownEntries l shown)
  else
    match x.fields.entryVector with
    | some v =>
      if x.fields.plNumAttach ≤ v.length then
        .ok ((v.take x.fields.plNumAttach).foldl (processEntrySubMsg plAction) (x, l))
      else .error .crash
    | none =>
      if x.fields.entries = [] ∧ x.fields.entryId ≠ none then
        let f := x.fields
        let f := if f.entryTime.empty then { f with entryTime := f.plTime } else f
        let (x, l) := { x with fields := f }.processEntry l plAction
        .ok ({ x with fields := x.fields.clearEntry }, l)
      else .ok (x.fields.entries.foldl (processEntrySubMsg plAction) (x, l))

/-! ## Messages -/

/-- The three steps for the level that the fields describe. -/
def processLevel (x : Listener) : Handled Listener := do
  match ← x.processLevelPart1 with
  | (x, none) => pure x
  | (x, some l) =>
    let (x, l) ← x.processEntries l x.fields.plAction
    pure (x.processLevelPart2 l)

/-- One level submessage; of a message without vectors (`clear` false) the level fields that the
submessage does not carry stay as the level before left them. -/
def processLevelSubMsg (clear : Bool) (x : Listener) (msg : LevelMsg) : Handled Listener :=
  let f := if clear then x.fields.clearPriceLevel else x.fields
  { x with fields := f.processLevelMessage x.takesEntries msg }.processLevel

/-- `createDelta`, without its result, which says whether the message was the last of its set. -/
def createDelta (x : Listener) : Handled Listener :=
  if x.fields.numLevels = 0 then .ok x
  else
    match x.fields.priceLevelVector with
    | some v =>
      if x.fields.numLevels ≤ v.length then
        (v.take x.fields.numLevels).foldlM (processLevelSubMsg true) x
      else .error .crash
    | none =>
      if x.fields.priceLevels = [] then
        let f := x.fields
        { x with fields := if f.hasPlTime then f else { f with plTime := f.bookTime } }.processLevel
      else x.fields.priceLevels.foldlM (processLevelSubMsg false) x

def bookTypeOf (msg : BookMsg) : Nat :=
  (msg.findSome? fun f => match f with
    | .bookType n => some n
    | _ => none).getD 0

/-- The symbol and the participant are taken from a message once. -/
def onBookName (b : Book) : BookField → Book
  | .symbol s => if b.symbol = "" then { b with symbol := s } else b
  | .partId s => if b.partId = "" then { b with partId := s } else b
  | _ => b

/-- `processBookMessage`; the result says whether an update is to be ignored.  A sequence number
that leaves a gap makes the book inconsistent when the sender is the same. -/
def processBookMessage (x : Listener) (msg : BookMsg) (isRecap : Bool) : Listener × Bool :=
  let f := { BookMsgFields.cleared with bookType := bookTypeOf msg }
  let f := msg.foldl (BookMsgFields.onBookField (x.processesEntries || f.bookType == 1)) f
  let f := if f.bookTime.empty then { f with bookTime := f.srcTime } else f
  let b := { msg.foldl onBookName x.book with bookTime := f.bookTime }
  let first := f.msgNum = 1
  let b := if first ∧ isRecap then b.clear else b
  -- while deltas are conflated they outlive an update
  let deltas := if first ∧ (isRecap ∨ x.deltas.complexDelta.conflateDeltas = false) then
      { x.deltas with currentDeltaCount := 0 }
    else x.deltas
  let ignored := !isRecap && f.msgSeqNum == x.eventSeqNum
  let gap := isRecap = false ∧ ignored = false ∧ f.msgSeqNum ≠ 0 ∧
    f.msgSeqNum ≠ u32Inc x.eventSeqNum
  ({ x with
      book := b
      fields := f
      deltas := deltas
      isConsistent :=
        if first ∧ isRecap then true
        else if gap ∧ f.senderId = x.prevSenderId then false
        else x.isConsistent
      prevSenderId := f.senderId
      eventSeqNum := f.msgSeqNum }, ignored)

/-- What is left of the listener after a step that may have thrown; none for a crash. -/
def caught : Handled Listener → Option Listener
  | .ok x => some x
  | .error (.thrown x) => some x
  | .error .crash => none

/-- `handleRecap`: a message that completes its set empties the list of deltas. -/
def handleRecap (x : Listener) (msg : BookMsg) : Option Listener :=
  let x := (x.processBookMessage msg true).1
  match x.createDelta with
  | .ok x =>
    let complete := x.fields.numLevels = 0 ∨ x.fields.msgNum = x.fields.msgTotal
    let list := x.deltas.complexDelta
    some { x with
      gotInitial := true
      isConsistent := true
      deltas := { x.deltas with complexDelta := if complete then list.clear else list } }
  | .error (.thrown x) => some { x with gotInitial := true }
  | .error .crash => none

/-- The deltas a handler is given: none, a simple delta or a list. -/
inductive Delivery
  | nothing
  | simple (d : BasicDelta)
  | complex (ds : List BasicDelta)

/-- What `invokeDeltaHandlers` gives to a handler. -/
def delivery (x : Listener) : Delivery :=
  match x.deltas.currentDeltaCount, x.deltas.simpleDelta with
  | 0, _ => .nothing
  | 1, some d => .simple d
  | 1, none => .nothing
  | _ + 2, _ => .complex x.deltas.complexDelta.toList

/-- `handleUpdate` up to the handlers: the listener that they see.  Before an initial the
message is refused, and an update that repeats the sequence number is ignored. -/
def applyUpdate (x : Listener) (msg : BookMsg) : Option Listener :=
  if x.gotInitial then
    match x.processBookMessage msg false with
    | (x, true) => some x
    | (x, false) => caught x.createDelta
  else some x

/-- `invokeDeltaHandlers` once the handlers have returned. -/
def afterHandlers (x : Listener) : Listener :=
  { x with
    book := if x.book.generateDeltas then x.book else x.book.cleanupDetached
    deltas := { x.deltas with
      currentDeltaCount := 0
      complexDelta := if x.deltas.currentDeltaCount > 1 then x.deltas.complexDelta.clear
        else x.deltas.complexDelta } }

/-- `handleUpdate` with a handler installed. -/
def handleUpdate (x : Listener) (msg : BookMsg) : Option Listener :=
  (x.applyUpdate msg).map fun y =>
    if x.gotInitial && !(x.processBookMessage msg false).2 && y.isConsistent &&
        y.deltas.currentDeltaCount != 0 then y.afterHandlers
    else y

end Listener

end Mamda
