import OpenMama.Lib.Register
import OpenMama.Mamda.ListenerMessages

/-!
# `MamdaOrderBookEntryManager`

A session whose listener finds entries through a manager: a table from keys to
entries of the whole book.  The key of an entry is its id, or, where ids are not
unique, what `processEntry` makes of the id, the price and the side.

The manager is asked instead of the level, and what it finds may sit on another
level than the one the message is about.  The level in hand is all the same the
one that is changed, and from which a deleted entry is erased; the entry itself
is changed where it is.  An entry that is destroyed takes itself out of the
manager, so the manager never leads to one that is gone.

`named` is not in the source: it records which level each message named for the
ids that it added or updated.
-/

namespace Mamda

open Mama Lib

/-! ## The manager -/

/-- `MamdaOrderBookEntryManager`, with the settings of the listener that go with it and what an
entry knows of its manager.  `entries` is the table, `uniqueIds` what `getUniqueId` returns, and
`managed` tells that `mManager` is set. -/
structure EntryManager where
  uniqueEntryIds : Bool
  uniqueId : String → Price → Side → String
  sourceDerivative : Option SourceDerivative
  entries : String → Option Ref
  uniqueIds : Ref → String
  managed : Ref → Bool

namespace EntryManager

/-- What `processEntry` asks the manager for. -/
def key (m : EntryManager) (id : String) (price : Price) (side : Side) : String :=
  if m.uniqueEntryIds then id else m.uniqueId id price side

/-- `setUniqueId`, `setManager` and `addEntry` for a new entry. -/
def addEntry (m : EntryManager) (ref : Ref) (k : String) : EntryManager :=
  { m with entries := Function.update m.entries k (some ref)
           uniqueIds := Function.update m.uniqueIds ref k
           managed := Function.update m.managed ref true }

/-- `removeEntry`, then `setManager (NULL)` of the entry. -/
def removeEntry (m : EntryManager) (ref : Ref) (k : String) : EntryManager :=
  { m with entries := Function.update m.entries k none
           managed := Function.update m.managed ref false }

/-- `~MamdaOrderBookEntry`. -/
def destroyEntry (m : EntryManager) (ref : Ref) : EntryManager :=
  if m.managed ref then m.removeEntry ref (m.uniqueIds ref) else m

def clear (m : EntryManager) : EntryManager := { m with entries := fun _ => none }

end EntryManager

/-! ## Entries anywhere -/

namespace Book

/-- The detached entries: those of detached levels and those that were erased from a level. -/
def detached (b : Book) : List Entry :=
  b.detachedLevels.flatMap PriceLevel.entryList ++ b.detachedEntries

def attached (b : Book) : List Entry :=
  (b.levels.bid.values ++ b.levels.ask.values ++ b.marketOrders.bid.toList ++
    b.marketOrders.ask.toList).flatMap PriceLevel.entryList

def entryAt (b : Book) (ref : Ref) : Option Entry :=
  (b.attached ++ b.detached).find? (·.ref == ref)

def changeEntryAt (b : Book) (ref : Ref) (f : Entry → Entry) : Book :=
  let change (e : Entry) : Entry := if e.ref = ref then f e else e
  let on (l : PriceLevel) : PriceLevel := { l with entries := l.entries.map (List.map change) }
  { b with
    levels := ⟨b.levels.bid.mapVal on, b.levels.ask.mapVal on⟩
    marketOrders := ⟨b.marketOrders.bid.map on, b.marketOrders.ask.map on⟩
    detachedLevels := b.detachedLevels.map on
    detachedEntries := b.detachedEntries.map change }

/-- `addEntry` of a level behind a pointer, for a new entry with that id. -/
def addLevelEntry (b : Book) (l : PriceLevel) (id : String) (deriv : Option SourceDerivative) :
    Book × PriceLevel × Entry :=
  let e : Entry := { Entry.create (b.fresh 0) id with sourceDeriv := deriv }
  let l' := l.addEntry (b.counts l) e
  ({ b with
     nextRef := b.nextRef + 1
     publisher := if b.reports l then b.publisher.addDelta (addEntryDelta l' e) else b.publisher
    }.storeLevel l', l', { e with priceLevel := some l.ref })

end Book

/-! ## The listener -/

/-- A session with a manager; `named` has the latest name first. -/
structure Managed where
  session : Session
  manager : EntryManager
  named : List (String × Side × Price)

inductive ManagedStop
  | thrown (x : Managed)
  | crash

namespace Managed

abbrev Handled (α : Type) := Except ManagedStop α

def listener (x : Managed) : Listener := x.session.listener

def fields (x : Managed) : BookMsgFields := x.listener.fields

def book (x : Managed) : Book := x.listener.book

def withListener (x : Managed) (l : Listener) : Managed :=
  { x with session := { x.session with listener := l } }

def withFields (x : Managed) (f : BookMsgFields) : Managed :=
  x.withListener { x.listener with fields := f }

/-- `findEntry` of the manager; the level in hand is where the entry is looked for first. -/
def findEntry (x : Managed) (l : PriceLevel) (k : String) : Option Entry :=
  (x.manager.entries k).bind fun ref =>
    (l.entryList.find? (·.ref == ref)).or (x.book.entryAt ref)

/-- The rest of `processEntry` once the entry is found or made. -/
def changeEntry (x : Managed) (l : PriceLevel) (plAction entryAction : Action) (e : Entry)
    (newEntry : Bool) : Managed × PriceLevel :=
  let b :=
    if l.entryList.any (·.ref == e.ref) then x.book
    else x.book.changeEntryAt e.ref (Listener.changedEntry x.fields)
  let (y, l) := { x.listener with book := b }.changeEntry l plAction entryAction e newEntry
  (x.withListener y, l)

def name (x : Managed) (id : String) : Managed :=
  { x with named := (id, x.fields.plSide, x.fields.plPrice) :: x.named }

def processEntry (x : Managed) (l : PriceLevel) (plAction : Action) : Managed × PriceLevel :=
  match x.fields.entryId with
  | none => (x, l)
  | some id =>
    if id = "" then (x, l)
    else
      let k := x.manager.key id l.price l.side
      if x.fields.entryAction = .delete then
        match x.findEntry l k with
        | none =>
          if x.fields.bookType = 1 ∧ x.fields.hasPlSize = false then
            (x.withFields { x.fields with plSize := l.size }, l)
          else (x, l)
        | some e =>
          { x with manager := x.manager.removeEntry e.ref k }.changeEntry l plAction .delete e false
      else
        match x.findEntry l k with
        | some e => (x.name id).changeEntry l plAction x.fields.entryAction e false
        | none =>
          let (b, l, e) := x.book.addLevelEntry l id x.manager.sourceDerivative
          { (x.name id).withListener { x.listener with book := b } with
            manager := x.manager.addEntry e.ref k }.changeEntry l plAction
            (if x.fields.entryAction = Action.update then .add else x.fields.entryAction) e true

def processEntrySubMsg (plAction : Action) (r : Managed × PriceLevel) (msg : EntryMsg) :
    Managed × PriceLevel :=
  let x := r.1.withFields (r.1.fields.processEntryMessage r.1.listener.takesEntries msg)
  let (x, l) := x.processEntry r.2 plAction
  (x.withFields x.fields.clearEntry, l)

/-- A level DELETE that names no entries: every entry the level shows is removed, from the manager
too, and reported. -/
def deleteShownEntries (x : Managed) (l : PriceLevel) : List Entry → Managed × PriceLevel
  | [] => (x, l)
  | e :: es =>
    let x := { x with manager := x.manager.removeEntry e.ref (x.manager.uniqueIds e.ref) }
    let (y, l) := x.listener.deleteShownEntries l [e]
    (x.withListener y).deleteShownEntries l es

def processEntries (x : Managed) (l : PriceLevel) (plAction : Action) :
    Handled (Managed × PriceLevel) :=
  if x.listener.levelsOnly then .ok (x, l)
  else if x.fields.plNumAttach = 0 then
    let shown := l.entryList.filter (x.book.counts l)
    if plAction ≠ .delete ∨ shown = [] then
      .ok (x.withListener (x.listener.addDelta none l plAction .unknown), l)
    else .ok (x.deleteShownEntries l shown)
  else
    match x.fields.entryVector with
    | some v =>
      if x.fields.plNumAttach ≤ v.length then
        .ok ((v.take x.fields.plNumAttach).foldl (processEntrySubMsg plAction) (x, l))
      else .error .crash
    | none =>
      if x.fields.entries = [] ∧ x.fields.entryId ≠ none then
        let f := x.fields
        let f := if f.entryTime.empty then { f with entryTime := f.plTime } else f
        let (x, l) := (x.withFields f).processEntry l plAction
        .ok (x.withFields x.fields.clearEntry, l)
      else .ok (x.fields.entries.foldl (processEntrySubMsg plAction) (x, l))

/-- `processLevelPart1`, which does not touch the manager. -/
def processLevelPart1 (x : Managed) : Handled (Managed × Option PriceLevel) :=
  match x.listener.processLevelPart1 with
  | .ok (y, l) => .ok (x.withListener y, l)
  | .error (.thrown y) => .error (.thrown (x.withListener y))
  | .error .crash => .error .crash

/-- The three steps for the level that the fields describe. -/
def processLevel (x : Managed) : Handled Managed := do
  match ← x.processLevelPart1 with
  | (x, none) => pure x
  | (x, some l) =>
    let (x, l) ← x.processEntries l x.fields.plAction
    pure (x.withListener (x.listener.processLevelPart2 l))

def processLevelSubMsg (clear : Bool) (x : Managed) (msg : LevelMsg) : Handled Managed :=
  let f := if clear then x.fields.clearPriceLevel else x.fields
  (x.withFields (f.processLevelMessage x.listener.takesEntries msg)).processLevel

def createDelta (x : Managed) : Handled Managed :=
  if x.fields.numLevels = 0 then .ok x
  else
    match x.fields.priceLevelVector with
    | some v =>
      if x.fields.numLevels ≤ v.length then
        (v.take x.fields.numLevels).foldlM (processLevelSubMsg true) x
      else .error .crash
    | none =>
      if x.fields.priceLevels = [] then
        let f := x.fields
        (x.withFields (if f.hasPlTime then f else { f with plTime := f.bookTime })).processLevel
      else x.fields.priceLevels.foldlM (processLevelSubMsg false) x

/-! ## Messages -/

/-- The manager once the book has destroyed what is detached. -/
def sweptManager (x : Managed) : EntryManager :=
  (x.book.detached.map Entry.ref).foldl EntryManager.destroyEntry x.manager

/-- The manager once the book has destroyed all it had and the manager is cleared. -/
def clearedManager (x : Managed) : EntryManager :=
  (((x.book.detached ++ x.book.attached).map Entry.ref).foldl EntryManager.destroyEntry
    x.manager).clear

def processBookMessage (x : Managed) (msg : BookMsg) (isRecap : Bool) : Managed :=
  let y := { x with session := (x.session.processBookMessage msg isRecap).1 }
  if y.fields.msgNum = 1 ∧ isRecap then { y with manager := x.clearedManager } else y

/-- What is left after a step that may have thrown; none for a crash. -/
def caught : Handled Managed → Option Managed
  | .ok x => some x
  | .error (.thrown x) => some x
  | .error .crash => none

def handleClear (x : Managed) (msg : BookMsg) : Managed :=
  { x with
    session := (x.session.handleClear msg).1
    manager := (x.processBookMessage msg true).clearedManager }

def handleRecap (x : Managed) (msg : BookMsg) : Option Managed :=
  match (x.processBookMessage msg true).createDelta with
  | .ok y =>
    let l := { y.listener with gotInitial := true, isConsistent := true }
    if l.fields.numLevels = 0 ∨ l.fields.msgNum = l.fields.msgTotal then
      let deltas := { l.deltas with complexDelta := l.deltas.complexDelta.clear }
      some { y with
        session := ({ y.session with listener := { l with deltas := deltas } }.setQuality .ok).1 }
    else some (y.withListener l)
  | .error (.thrown y) => some (y.withListener { y.listener with gotInitial := true })
  | .error .crash => none

/-- Whether `invokeDeltaHandlers` is called at the end of `handleUpdate` and cleans up. -/
def cleansUp (x : Managed) : Bool :=
  x.session.hasHandlers && (x.session.updateInconsistentBook || x.listener.isConsistent) &&
    !(x.listener.deltas.complexDelta.conflateDeltas &&
      !x.listener.deltas.complexDelta.sendImmediately) &&
    x.listener.deltas.currentDeltaCount != 0 && !x.book.generateDeltas

/-- The end of `handleUpdate`, once the delta is made. -/
def forwardUpdate (x : Managed) : Managed :=
  { x with
    session := x.session.forwardUpdate.1
    manager := if x.cleansUp then x.sweptManager else x.manager }

def handleUpdate (x : Managed) (msg : BookMsg) : Option Managed :=
  if x.listener.gotInitial then
    let y := x.processBookMessage msg false
    if (x.listener.processBookMessage msg false).2 then some y
    else (caught y.createDelta).map forwardUpdate
  else some x

def onMsg (x : Managed) (msgType : BookMsgType) (msg : BookMsg) : Option Managed :=
  match msgType with
  | .bookUpdate =>
    if x.session.quality ≠ .ok ∧ x.session.updateStaleBook = false then some x
    else x.handleUpdate msg
  | .bookClear => some (x.handleClear msg)
  | .bookInitial | .bookRecap | .bookSnapshot => x.handleRecap msg
  | .other => some x

/-- `setQuality`, which clears a stale book. -/
def setQuality (x : Managed) (quality : Quality) : Managed :=
  { x with
    session := (x.session.setQuality quality).1
    manager :=
      if x.session.quality ≠ quality ∧ quality ≠ .ok ∧ quality ≠ .duplicate ∧
          x.session.clearStaleBook then x.clearedManager
      else x.manager }

def onTimer (x : Managed) : Managed :=
  { x with
    session := x.session.onTimer.1
    manager := if x.listener.deltas.currentDeltaCount = 0 then x.manager else x.sweptManager }

/-- One event; a timer that does not exist cannot fire. -/
def step (x : Managed) : SessionEvent → Option Managed
  | .msg msgType msg => x.onMsg msgType msg
  | .unreadable msgType => some { x with session := (x.session.onUnreadable msgType).1 }
  | .quality quality => some (x.setQuality quality)
  | .timer => some (if x.session.conflationTimer then x.onTimer else x)

/-- A session with a manager as they are set up; the book may check source states and may
publish. -/
def new (session : Session) (manager : EntryManager) (check publish : Bool) : Managed where
  session := { session with
    listener := { session.listener with
      book := .start session.listener.book.addr session.listener.book.sourceOk check publish
      haveEntries := false } }
  manager := { manager with entries := fun _ => none, managed := fun _ => false }
  named := []

end Managed

end Mamda
