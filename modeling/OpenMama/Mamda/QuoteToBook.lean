import OpenMama.Mamda.MessageCounts
import OpenMama.Mamda.Publisher
import OpenMama.Mamda.OrderBookLevels

/-!
# `MamdaQuoteToBookListener`

The listener turns a stream of quotes into an order book of one level a side.  It
caches price and size of both sides, with flags for the fields that the latest
message changed (`updateQuoteFields`), and then works the changed sides into the
book: a recap builds it anew (`handleRecap`), any other message looks at the first
level that the iterator of the side shows (`handleQuote`).

What the one handler is given is kept in `calls`.  Sizes are whole numbers, as they
are for the levels of a book, and may be negative in a message.
-/

namespace Mamda

open Mama Lib

/-- `mamaPrice_isZero`. -/
def priceIsZero (p : Price) : Bool :=
  decide (p < 1 / 100000000000) && decide (-(1 / 100000000000) < p)

namespace Book

/-- The levels that the iterators of a half visit, best price first: one of size zero is passed
over. -/
def visibleLevels (b : Book) (s : BookSide) : List PriceLevel :=
  (match s with
    | .bid => (b.levels.get .bid).values.reverse
    | .ask => (b.levels.get .ask).values).filter fun l => l.size ≠ 0

/-- `*bidBegin ()`, `*askBegin ()`, nothing at the end. -/
def firstVisible (b : Book) (s : BookSide) : Option PriceLevel := (b.visibleLevels s).head?

def totalSize (b : Book) (s : BookSide) : Int :=
  ((b.levels.get s).values.map fun l => (l.size : Int)).sum

end Book

/-! ## The messages -/

/-- What `evaluateMsgQual` reads of `MamaMsgQual`. -/
structure MsgQual where
  isDefinatelyDuplicate : Bool
  isPossiblyDuplicate : Bool
  isOutOfSequence : Bool

namespace QuoteToBook

/-- The fields that have an updater the book depends on. -/
inductive Field
  | bidPrice (p : Price)
  | bidSize (n : Int)
  | askPrice (p : Price)
  | askSize (n : Int)
  | quoteTime (t : DateTime)
  | quoteSeqNum (n : Nat)
  | quoteCount (n : Nat)

/-- A message: its fields in the order in which they are visited. -/
structure Msg where
  msgType : QuoteMsgType
  qual : Option MsgQual
  conflateQuoteCount : Option Nat
  fields : List Field

/-- `tryU32` of the sequence number. -/
def Msg.quoteSeqNum (m : Msg) : Option Nat :=
  m.fields.findSome? fun
    | .quoteSeqNum n => some n
    | _ => none

/-- `tryDateTime` of the quote time. -/
def Msg.quoteTime (m : Msg) : Option DateTime :=
  m.fields.findSome? fun
    | .quoteTime t => some t
    | _ => none

/-- `tryI32` of the quote count. -/
def Msg.quoteCount (m : Msg) : Option Nat :=
  m.fields.findSome? fun
    | .quoteCount n => some n
    | _ => none

/-! ## The cache -/

structure Quote where
  price : Price
  size : Int
  gotPrice : Bool
  gotSize : Bool

/-- `QuoteCache`. -/
structure Cache where
  quotes : Sides Quote
  quoteTime : DateTime
  tmpQuoteCount : Nat
  quoteCount : Nat
  quoteSeqNum : Nat
  lastGenericMsgWasQuote : Bool

namespace Cache

/-- What `initialize ()` leaves. -/
def initialized : Cache where
  quotes := ⟨⟨0, 0, false, false⟩, ⟨0, 0, false, false⟩⟩
  quoteTime := .null
  tmpQuoteCount := 0
  quoteCount := 0
  quoteSeqNum := 0
  lastGenericMsgWasQuote := false

def setQuote (c : Cache) (s : BookSide) (q : Quote) : Cache :=
  { c with quotes := c.quotes.set s q }

/-- `FieldUpdateBidPrice`, `FieldUpdateAskPrice`: the cached price is no change. -/
def updatePrice (c : Cache) (s : BookSide) (p : Price) : Cache :=
  let q := c.quotes.get s
  if q.price ≠ p then c.setQuote s { q with price := p, gotPrice := true } else c

/-- `FieldUpdateBidSize`, `FieldUpdateAskSize`. -/
def updateSize (multiplier : Int) (c : Cache) (s : BookSide) (n : Int) : Cache :=
  let q := c.quotes.get s
  if q.size ≠ n * multiplier then
    c.setQuote s { q with size := n * multiplier, gotSize := true }
  else c

def onField (multiplier : Int) (c : Cache) : Field → Cache
  | .bidPrice p => c.updatePrice .bid p
  | .bidSize n => c.updateSize multiplier .bid n
  | .askPrice p => c.updatePrice .ask p
  | .askSize n => c.updateSize multiplier .ask n
  | .quoteTime t => { c with quoteTime := t }
  | .quoteSeqNum n => { c with quoteSeqNum := n }
  | .quoteCount n => { c with tmpQuoteCount := n }

def lowerFlags (c : Cache) : Cache :=
  { c with lastGenericMsgWasQuote := false
           quotes := ⟨{ c.quotes.bid with gotPrice := false, gotSize := false },
                      { c.quotes.ask with gotPrice := false, gotSize := false }⟩ }

def clearQuotes (c : Cache) : Cache :=
  { c with quotes := ⟨{ c.quotes.bid with price := 0, size := 0 },
                      { c.quotes.ask with price := 0, size := 0 }⟩ }

end Cache

def Quote.got (q : Quote) : Bool := q.gotSize || q.gotPrice

/-! ## The listener -/

inductive Call
  | recap (b : Book)
  | gap (gapBegin gapEnd : Nat)
  | delta (ds : List BasicDelta)

/-- The switches of the listener, as the constructor leaves them. -/
structure Settings where
  updateStaleBook : Bool := false
  updateInconsistentBook : Bool := false
  resolvePossiblyDuplicate : Bool := false
  quoteSizeMultiplier : Int := 1

/-- `MamdaQuoteToBookListenerImpl`, with the quality and the consistency of its book. -/
structure Listener where
  book : Book
  isQualityOk : Bool
  isConsistent : Bool
  cache : Cache
  delta : Publisher
  gapBegin : Nat
  gapEnd : Nat
  settings : Settings
  calls : List Call

namespace Listener

/-- A listener for the book it is given; `junk` is what the uninitialised size of its list of
deltas holds. -/
def new (settings : Settings) (book : Book) (isQualityOk isConsistent : Bool) (junk : Nat) :
    Listener where
  book := book
  isQualityOk := isQualityOk
  isConsistent := isConsistent
  cache := .initialized
  delta := ⟨0, none, .new junk⟩
  gapBegin := 0
  gapEnd := 0
  settings := settings
  calls := []

/-! ### Qualifiers -/

/-- A possible duplicate is resolved, if the listener is to do so and the message has both a
sequence number and a time. -/
def resolve (x : Listener) (m : Msg) (q : MsgQual) : MsgQual :=
  if q.isPossiblyDuplicate && x.settings.resolvePossiblyDuplicate then
    match m.quoteSeqNum, m.quoteTime with
    | some n, some t =>
      if n < x.cache.quoteSeqNum && t.compare x.cache.quoteTime < 0 then
        { q with isDefinatelyDuplicate := true, isPossiblyDuplicate := false }
      else q
    | _, _ => q
  else q

/-- `evaluateMsgQual`: whether the message is a duplicate. -/
def isDuplicateMsg (x : Listener) (m : Msg) : Bool :=
  match m.qual with
  | some q => (x.resolve m q).isDefinatelyDuplicate
  | none => false

/-- `mIsTransientMsg` after `evaluateMsgQual`. -/
def isTransientMsg (x : Listener) (m : Msg) : Bool :=
  match m.qual with
  | some q =>
    let q := x.resolve m q
    !q.isDefinatelyDuplicate && (q.isOutOfSequence || q.isPossiblyDuplicate)
  | none => false

/-! ### Fields and counts -/

def updateQuoteFields (x : Listener) (m : Msg) : Listener :=
  let c := m.fields.foldl (Cache.onField x.settings.quoteSizeMultiplier) x.cache.lowerFlags
  { x with cache := { c with
      lastGenericMsgWasQuote := c.quotes.bid.got || c.quotes.ask.got } }

def countGap (c : Cache) (m : Msg) : Bool :=
  decide (0 < c.tmpQuoteCount) && (decide (0 < c.quoteCount) &&
    decide (u32Add c.quoteCount (m.conflateQuoteCount.getD 1) < c.tmpQuoteCount))

def checkQuoteCount (x : Listener) (m : Msg) : Listener :=
  let x :=
    if countGap x.cache m then
      let first := u32Add x.cache.quoteCount (m.conflateQuoteCount.getD 1)
      let last := x.cache.tmpQuoteCount - 1
      { x with gapBegin := first, gapEnd := last, isConsistent := false,
               calls := x.calls ++ [.gap first last] }
    else x
  { x with cache := { x.cache with quoteCount := x.cache.tmpQuoteCount } }

/-! ### Levels -/

def addDelta (x : Listener) (l : PriceLevel) (plDeltaSize : Int) (plAction : Action) : Listener :=
  { x with delta := x.delta.addDelta ⟨none, l, plDeltaSize, plAction, .unknown⟩ }

def addLevel (x : Listener) (plPrice : Price) (plSize : Int) (plSide : BookSide)
    (plTime : DateTime) : Listener :=
  let (b, l, _) := x.book.findOrCreateLevel plSide plPrice plSide.side
  let l := (l.setTime plTime).setSize plSize
  ({ x with book := b.putLevel (.limit plSide plPrice) l }).addDelta l plSize .add

def updateLevel (x : Listener) (l : PriceLevel) (plSize plSizeChange : Int) (plSide : BookSide)
    (plTime : DateTime) : Listener :=
  let l := (l.setTime plTime).setSize plSize
  ({ x with book := x.book.putLevel (.limit plSide l.price) l }).addDelta l plSizeChange .update

/-- `deleteLevel`.  The level is detached before its time and size are set; it is the same
object, and detaching looks at neither. -/
def deleteLevel (x : Listener) (l : PriceLevel) (plTime : DateTime) : Listener :=
  let l := (l.setTime plTime).setSize 0
  -- the size that is read here is already the new one
  ({ x with book := x.book.detachLevel l }).addDelta l (0 - (l.size : Int)) .delete

/-! ### Recaps and quotes -/

/-- One side of `handleRecap`. -/
def recapSide (x : Listener) (s : BookSide) : Listener :=
  let q := x.cache.quotes.get s
  if q.got then x.addLevel q.price q.size s x.cache.quoteTime else x

/-- `handleRecap`.  Clearing the book makes it consistent, which a gap may undo for as long as
the recap is handled. -/
def handleRecap (x : Listener) (m : Msg) : Listener :=
  let x := { x with book := x.book.clear, isConsistent := true, cache := x.cache.clearQuotes }
  let x := (x.updateQuoteFields m).checkQuoteCount m
  let x := (x.recapSide .bid).recapSide .ask
  { x with isConsistent := true
           isQualityOk := true
           calls := x.calls ++ [.recap x.book]
           delta := { x.delta with complexDelta := x.delta.complexDelta.clear } }

/-- One side of `handleQuote`. -/
def quoteSide (x : Listener) (s : BookSide) : Listener :=
  let q := x.cache.quotes.get s
  let t := x.cache.quoteTime
  if q.got then
    match x.book.firstVisible s with
    | none => if q.size = 0 || priceIsZero q.price then x else x.addLevel q.price q.size s t
    | some l =>
      if q.size = 0 || priceIsZero q.price then x.deleteLevel l t
      else if q.price = l.price then x.updateLevel l q.size (q.size - l.size) s t
      else (x.deleteLevel l t).addLevel q.price q.size s t
  else x

def invokeDeltaHandlers (x : Listener) : Listener :=
  if x.delta.currentDeltaCount = 0 then x
  else
    { x with
      calls := x.calls ++ [.delta x.delta.waiting]
      book := x.book.cleanupDetached
      delta := { x.delta with
        currentDeltaCount := 0
        complexDelta :=
          if x.delta.currentDeltaCount = 1 then x.delta.complexDelta
          else x.delta.complexDelta.clear } }

def handleQuote (x : Listener) (m : Msg) : Listener :=
  let x := ((x.checkQuoteCount m).quoteSide .bid).quoteSide .ask
  if x.settings.updateInconsistentBook || x.isConsistent then x.invokeDeltaHandlers else x

/-! ### Messages -/

/-- `handleMessage` of a message that is neither duplicate nor transient. -/
def handleRegular (x : Listener) (m : Msg) : Listener :=
  let x := { x with delta := { x.delta with currentDeltaCount := 0 } }
  match m.msgType with
  | .initial | .recap | .preopening | .snapshot => x.handleRecap m
  | .quote => (x.updateQuoteFields m).handleQuote m
  | .update | .trade =>
    let x := x.updateQuoteFields m
    if x.cache.lastGenericMsgWasQuote then x.handleQuote m else x

def handleMessage (x : Listener) (m : Msg) : Listener :=
  if x.isDuplicateMsg m then x
  else if x.isTransientMsg m then
    { x with cache := { x.cache with quoteCount := m.quoteCount.getD x.cache.quoteCount } }
  else x.handleRegular m

/-- `onMsg`: of a book that is not OK only a recap is handled, unless stale books are updated. -/
def onMsg (x : Listener) (m : Msg) : Listener :=
  match m.msgType with
  | .preopening | .quote | .update | .trade =>
    if !x.isQualityOk && !x.settings.updateStaleBook then x else x.handleMessage m
  | .snapshot | .initial | .recap => x.handleMessage m

end Listener

end QuoteToBook

end Mamda
