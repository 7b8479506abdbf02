import OpenMama.Mamda.BookMsgFields
import OpenMama.Mamda.OrderBookLevels

/-!
# `MamdaOrderBookWriter`

The writer turns a book or the deltas a publishing book holds back into a
message.  It keeps two vectors of scratch messages, one for the levels and one
for the entries of a level.  Both are emptied when a message is started and not
again while it is written, so the scratch messages of the entries still hold the
fields of the levels before.

A scratch message past the end of its vector is out of bounds: there is no
result then.
-/

namespace Mamda

open Mama Lib

def grow {α : Type} (n : Nat) (msgs : List (List α)) : List (List α) :=
  msgs ++ List.replicate (n - msgs.length) []

/-- `BookMsgHolder::clear`. -/
def clearMsgs {α : Type} (msgs : List (List α)) : List (List α) := msgs.map fun _ => []

def appendAt {α : Type} (i : Nat) (fields : List α) (msgs : List (List α)) :
    Option (List (List α)) :=
  match msgs[i]? with
  | some msg => some (msgs.set i (msg ++ fields))
  | none => none

/-- `MamdaOrderBookWriterImpl`. -/
structure Writer where
  priceLevels : List LevelMsg
  entries : List EntryMsg

namespace Writer

/-- The start of `populateMsg`. -/
def clear (w : Writer) : Writer := ⟨clearMsgs w.priceLevels, clearMsgs w.entries⟩

/-! ## Fields -/

def addBookEntry (e : Entry) (action : Action) (plTime : DateTime) : EntryMsg :=
  [.entryId e.id, .entryAction action, .entrySize (e.size % 2 ^ 32)] ++
    (if plTime.compare e.time ≠ 0 then [.entryTime e.time] else []) ++
    (if e.status ≠ 0 then [.entryStatus e.status] else [])

/-- `addBookLevel`; the default side is bid, the default action ADD and the default number of
entries one. -/
def addBookLevel (l : PriceLevel) (action : Action) (bookTime : DateTime) : LevelMsg :=
  [.plPrice l.price] ++
    (if action ≠ .add then [.plAction action] else []) ++
    (if l.side ≠ .bid then [.plSide l.side] else []) ++
    [.plSize ((l.size % 2 ^ 32 : Nat) : Int),
      .plSizeChange ((l.sizeChange % 2 ^ 32 : Nat) : Int)] ++
    (if bookTime.compare l.time ≠ 0 then [.plTime l.time] else []) ++
    (if l.numEntries ≠ 1 then [.plNumEntries (l.numEntries % 2 ^ 16)] else [])

/-! ## A whole book -/

/-- The loop of `addBookLevelEntries`: the `k`-th entry with a size goes to the `k`-th scratch
message. -/
def addEntryMsgs (plTime : DateTime) : List EntryMsg → List Entry → Option (List EntryMsg)
  | msgs, [] => some msgs
  | [], _ :: _ => none
  | msg :: msgs, e :: es =>
    (addEntryMsgs plTime msgs es).map ((msg ++ addBookEntry e .add plTime) :: ·)

def sized (es : List Entry) : List Entry := es.filter fun e => e.size ≠ 0

/-- The fields `addBookLevelEntries` adds to the message of a level that shows the entries `es`,
`msgs` being the scratch messages with them: a single one is flattened, and it is the last that
was looked at. -/
def levelEntryFields (l : PriceLevel) (es : List Entry) (msgs : List EntryMsg) : LevelMsg :=
  let n := (sized es).length
  (match es.getLast? with
    | some e => if n = 1 then (addBookEntry e .add l.time).map .entry else []
    | none => []) ++
    (if n > 1 then [.plEntries (msgs.take n)] else []) ++
    (if toI16 n ≠ 1 then [.plNumAttach (toI16 n)] else [])

/-- `addBookLevelEntries`: the scratch messages it leaves and the fields it adds. -/
def addBookLevelEntries (l : PriceLevel) (es : List Entry) (msgs : List EntryMsg) :
    Option (List EntryMsg × LevelMsg) :=
  (addEntryMsgs l.time (grow l.numEntriesTotal msgs) (sized es)).map fun msgs =>
    (msgs, levelEntryFields l es msgs)

/-- The loop of `addBookLevels` over the levels that are shown; a level goes to a scratch message
that is empty. -/
def addLevelMsgs (bookTime : DateTime) (shown : PriceLevel → List Entry) :
    List EntryMsg → List PriceLevel → Option (List LevelMsg)
  | _, [] => some []
  | msgs, l :: ls => do
    let (msgs, fields) ← addBookLevelEntries l (shown l) msgs
    let rest ← addLevelMsgs bookTime shown msgs ls
    pure ((addBookLevel l .add bookTime ++ fields) :: rest)

/-! ## A complex delta -/

/-- The fields of a level in a complex delta: `flat` is the delta whose entry is flattened if
`n`, the number of entries, is one. -/
def addDeltaLevel (t : DateTime) (level : PriceLevel) (action : Action)
    (flat : Option (BasicDelta × Entry)) (n : Nat) (msgs : List EntryMsg) : LevelMsg :=
  addBookLevel level action t ++
    (match flat with
      | some (d, e) => if n = 1 then (addBookEntry e d.entryAction d.level.time).map .entry else []
      | none => []) ++
    (if n > 1 then [.plEntries (msgs.take n)] else [])

/-- The number of entries of a level in a complex delta. -/
def addNumAttach (n : Nat) : LevelMsg := if n ≠ 1 then [.plNumAttach (toI16 n)] else []

/-- The variables of the loop of `addComplexDeltaFields`: `savedBasicDelta`, whose level is
`lastPl`, `flatEntryDelta` with its entry, `entryCount`, the scratch messages of the entries and
the messages of the levels that are finished, `plCount` in number. -/
structure DeltaLoop where
  saved : Option BasicDelta
  flat : Option (BasicDelta × Entry)
  entryCount : Nat
  entries : List EntryMsg
  levels : List LevelMsg

/-- Where the loop comes to another level: the one before is finished, in one of `room` scratch
messages. -/
def nextLevel (t : DateTime) (room : Nat) (x : DeltaLoop) (d : BasicDelta) : Option DeltaLoop :=
  match x.saved with
  | none => some { x with saved := some d }
  | some first =>
    if x.levels.length < room then
      let msg := addDeltaLevel t first.level first.plAction x.flat x.entryCount x.entries ++
        addNumAttach x.entryCount
      some { x with saved := some d, entryCount := 0, levels := x.levels ++ [msg] }
    else none

/-- The entry of a delta goes to the next scratch message. -/
def addDeltaEntry (x : DeltaLoop) (d : BasicDelta) : Option DeltaLoop :=
  match d.entry with
  | none => some x
  | some e =>
    (appendAt x.entryCount (addBookEntry e d.entryAction d.level.time) x.entries).map fun msgs =>
      { x with entries := msgs, entryCount := x.entryCount + 1, flat := some (d, e) }

def addDelta (t : DateTime) (room : Nat) (x : DeltaLoop) (d : BasicDelta) : Option DeltaLoop :=
  if x.saved.map (fun first => first.level.ref) = some d.level.ref then addDeltaEntry x d
  else (nextLevel t room x d).bind (addDeltaEntry · d)

/-- What follows the loop: the messages of all the levels and, if there is one only, the fields
that go to the message itself.  The entry of the last delta is read here whenever the last level
has one entry; it need not be the one that has it. -/
def addLastLevel (t : DateTime) (room : Nat) (x : DeltaLoop) (last : BasicDelta) :
    Option (List LevelMsg × LevelMsg) :=
  match x.saved with
  | none => none
  | some first =>
    if x.levels.length < room ∧ (x.entryCount = 1 → last.entry.isSome) then
      let flat := last.entry.map fun e => (last, e)
      let msg := addDeltaLevel t last.level first.plAction flat x.entryCount x.entries ++
        addNumAttach x.entryCount
      let main := addDeltaLevel t last.level last.plAction flat x.entryCount x.entries
      some (x.levels ++ [msg], if x.levels.length = 0 then main else [])
    else none

end Writer

namespace Book

/-- The levels the iterators of the book show: those with a size, bids from the best price down
and asks up. -/
def shownLevels (b : Book) : List PriceLevel :=
  b.levels.bid.values.reverse.filter (fun l => l.size ≠ 0) ++
    b.levels.ask.values.filter fun l => l.size ≠ 0

/-- `getTotalNumLevels`, as a `mama_u32_t`. -/
def totalNumLevels (b : Book) : Nat :=
  (b.levels.bid.toList.length + b.levels.ask.toList.length) % 2 ^ 32

/-- `populateMsg` for a book: `addBookLevels` on a message that is started; the scratch messages
of the levels must be as many as the levels that are shown. -/
def populateMsg (b : Book) (w : Writer) : Option BookMsg :=
  let w := w.clear
  if b.totalNumLevels = 0 then some [.numLevels 0]
  else do
    let levels := b.shownLevels
    let msgs ← Writer.addLevelMsgs b.bookTime b.shownEntries w.entries levels
    if levels.length ≤ (grow b.totalNumLevels w.priceLevels).length then
      pure ((if levels.length > 0 then [.priceLevels msgs] else []) ++
        [.numLevels (toI16 levels.length), .symbol b.symbol] ++
        (if b.partId ≠ "" then [.partId b.partId] else []) ++ [.bookTime b.bookTime])
    else none

/-- `populateRecap` on a new message; a book that does not publish warns and leaves it empty. -/
def populateRecap (b : Book) (w : Writer) : Option BookMsg :=
  if b.generateDeltas then b.populateMsg w else some []

end Book

/-- `MamdaOrderBookComplexDelta`, with the levels and entries its deltas point to as they are
when the message is written: a pointer leads to one level. -/
structure ComplexDelta where
  deltas : DeltaList
  eventTime : DateTime
  srcTime : DateTime
  eventSeqNum : Nat
  onePerRef : ∀ d ∈ deltas.toList, ∀ d' ∈ deltas.toList, d.level.ref = d'.level.ref →
    d.level = d'.level

/-- The loop of `addComplexDeltaFields` and what follows it, for a delta that is not empty. -/
def ComplexDelta.addLevels (x : ComplexDelta) (w : Writer) : Option (List LevelMsg × LevelMsg) := do
  let size := x.deltas.getSize
  let room := (grow size w.priceLevels).length
  let loop ← x.deltas.toList.foldlM (Writer.addDelta x.eventTime room)
    ⟨none, none, 0, grow size w.entries, []⟩
  let last ← x.deltas.toList.getLast?
  Writer.addLastLevel x.eventTime room loop last

/-- `populateMsg` for a complex delta: `addComplexDeltaFields` on a message that is started. -/
def ComplexDelta.populateMsg (x : ComplexDelta) (w : Writer) : Option BookMsg :=
  (if x.deltas.getSize > 0 then x.addLevels w.clear else some ([], [])).map fun (levels, main) =>
    main.map .level ++ (if levels.length > 1 then [.priceLevels levels] else []) ++
      [.numLevels ((levels.length % 2 ^ 32 : Nat) : Int), .bookTime x.eventTime,
        .srcTime x.srcTime] ++
      (if x.eventSeqNum ≠ 0 then [.seqNum x.eventSeqNum] else [])

end Mamda
