import OpenMama.Mamda.OrderBookTypes

/-!
# Book messages and `BookMsgFields`

A message is an ordered list of fields, and a field that is added goes to the
end.  A submessage carries the fields of its own kind: an entry submessage
fields of an entry, a level submessage fields of a level and, where the only
entry is flattened into it, of that entry, and the book message those of the
book and of a flattened level.  A vector of submessages holds them as they were
when it was added.

The listener walks the fields in order and notes each in `BookMsgFields`, so the
last field of a kind decides; a field that is missing leaves what was there.
-/

namespace Mamda

open Mama Lib

inductive EntryField
  | entryId (id : String)
  | entryAction (action : Action)
  | entrySize (size : Nat)
  | entryTime (time : DateTime)
  | entryStatus (status : UInt16)
  deriving DecidableEq, Repr

abbrev EntryMsg := List EntryField

/-- The fields of a level; `plEntry` is one of the numbered entry fields of a message that has
no vectors. -/
inductive LevelField
  | plPrice (price : Price)
  | plAction (action : Action)
  | plSide (side : Side)
  | plSize (size : Int)
  | plSizeChange (size : Int)
  | plTime (time : DateTime)
  | plNumEntries (n : Nat)
  | plNumAttach (n : Int)
  | plEntries (entries : List EntryMsg)
  | plEntry (entry : EntryMsg)
  | entry (field : EntryField)
  deriving DecidableEq, Repr

abbrev LevelMsg := List LevelField

/-- The fields of a book; `priceLevel` is one of the numbered level fields of a message that has
no vectors. -/
inductive BookField
  | msgSeqNum (n : Nat)
  | msgNum (n : Int)
  | msgTotal (n : Int)
  | senderId (n : Nat)
  | bookType (n : Nat)
  | symbol (symbol : String)
  | partId (partId : String)
  | srcTime (time : DateTime)
  | bookTime (time : DateTime)
  | seqNum (n : Nat)
  | numLevels (n : Int)
  | priceLevels (levels : List LevelMsg)
  | priceLevel (level : LevelMsg)
  | level (field : LevelField)
  deriving DecidableEq, Repr

abbrev BookMsg := List BookField

/-! ## Integer fields -/

/-- A `mama_i16_t` cast of a count. -/
def toI16 (n : Nat) : Int := if n % 2 ^ 16 < 2 ^ 15 then n % 2 ^ 16 else n % 2 ^ 16 - 2 ^ 16

/-- `mamaMsgField_getU32` of an integer field. -/
def getU32 (n : Int) : Nat := (n % 2 ^ 32).toNat

/-! ## What the listener notes -/

/-- `BookMsgFields`.  `priceLevelVector` and `entryVector` are `none` while the pointers are
null. -/
structure BookMsgFields where
  msgSeqNum : Nat
  senderId : Nat
  bookType : Nat
  msgNum : Int
  msgTotal : Int
  srcTime : DateTime
  bookTime : DateTime
  numLevels : Nat
  priceLevelVector : Option (List LevelMsg)
  priceLevels : List LevelMsg
  plPrice : Price
  plSide : Side
  plAction : Action
  plSize : Int
  hasPlSize : Bool
  plSizeChange : Int
  hasPlSizeChange : Bool
  plTime : DateTime
  hasPlTime : Bool
  plNumEntries : Nat
  plNumAttach : Nat
  entryVector : Option (List EntryMsg)
  entries : List EntryMsg
  entryId : Option String
  entrySize : Nat
  entryTime : DateTime
  entryAction : Action
  entryStatus : UInt16
  deriving DecidableEq

namespace BookMsgFields

/-- `clear`, and the constructor. -/
def cleared : BookMsgFields where
  msgSeqNum := 0
  senderId := 0
  bookType := 0
  msgNum := 1
  msgTotal := 1
  srcTime := .null
  bookTime := .null
  numLevels := 1
  priceLevelVector := none
  priceLevels := []
  plPrice := 0
  plSide := .bid
  plAction := .add
  plSize := 0
  hasPlSize := false
  plSizeChange := 0
  hasPlSizeChange := false
  plTime := .null
  hasPlTime := false
  plNumEntries := 1
  plNumAttach := 1
  entryVector := none
  entries := []
  entryId := none
  entrySize := 0
  entryTime := .null
  entryAction := .delete
  entryStatus := 0

def clearEntry (f : BookMsgFields) : BookMsgFields :=
  { f with entryId := none, entrySize := 0, entryStatus := 0, entryAction := .delete,
           entryTime := .null }

def clearPriceLevel (f : BookMsgFields) : BookMsgFields :=
  { f with plPrice := 0, plSize := 0, hasPlSize := false, plSizeChange := 0,
           hasPlSizeChange := false, plSide := .bid, plAction := .add, plNumEntries := 1,
           plNumAttach := 1, entryVector := none, plTime := .null, hasPlTime := false }

/-- The updaters of the entry fields.  `takesEntries` is the test `mProcessEntries ||
mBookType == 1` that all but the status make. -/
def onEntryField (takesEntries : Bool) (f : BookMsgFields) : EntryField → BookMsgFields
  | .entryId id => if takesEntries then { f with entryId := some id } else f
  | .entryAction a => if takesEntries then { f with entryAction := a } else f
  | .entrySize n => if takesEntries then { f with entrySize := n } else f
  | .entryTime t => if takesEntries then { f with entryTime := t } else f
  | .entryStatus n => { f with entryStatus := n }

/-- The updaters of the level fields; a price is rounded to 8 decimal places. -/
def onLevelField (takesEntries : Bool) (f : BookMsgFields) : LevelField → BookMsgFields
  | .plPrice p => { f with plPrice := roundPrice p }
  | .plAction a => { f with plAction := a }
  | .plSide s => { f with plSide := s }
  | .plSize n => { f with plSize := n, hasPlSize := true }
  | .plSizeChange n => { f with plSizeChange := n, hasPlSizeChange := true }
  | .plTime t => { f with plTime := t, hasPlTime := true }
  | .plNumEntries n => { f with plNumEntries := n }
  | .plNumAttach n => if takesEntries then { f with plNumAttach := getU32 n } else f
  | .plEntries es =>
    if takesEntries then { f with entryVector := some es, plNumAttach := es.length } else f
  | .plEntry e => { f with entries := f.entries ++ [e] }
  | .entry e => f.onEntryField takesEntries e

/-- The updaters of the book fields that are noted; the symbol and the participant go to the
book, and the updater of the book type is a look-up of its own. -/
def onBookField (takesEntries : Bool) (f : BookMsgFields) : BookField → BookMsgFields
  | .msgSeqNum n => { f with msgSeqNum := n }
  | .msgNum n => { f with msgNum := n }
  | .msgTotal n => { f with msgTotal := n }
  | .senderId n => { f with senderId := n }
  | .srcTime t => { f with srcTime := t }
  | .bookTime t => { f with bookTime := t }
  | .numLevels n => { f with numLevels := getU32 n }
  | .priceLevels ls => { f with priceLevelVector := some ls, numLevels := ls.length }
  | .priceLevel l => { f with priceLevels := f.priceLevels ++ [l] }
  | .level l => f.onLevelField takesEntries l
  | .bookType _ => f
  | .symbol _ => f
  | .partId _ => f
  | .seqNum _ => f

/-- The walk over the fields of an entry submessage, as `processEntryMessage` does it: an entry
without a time takes that of its level. -/
def processEntryMessage (takesEntries : Bool) (f : BookMsgFields) (msg : EntryMsg) :
    BookMsgFields :=
  let f := msg.foldl (onEntryField takesEntries) f
  if f.entryTime.empty then { f with entryTime := f.plTime } else f

/-- `processLevelMessage`: a level without a time takes that of the book. -/
def processLevelMessage (takesEntries : Bool) (f : BookMsgFields) (msg : LevelMsg) :
    BookMsgFields :=
  let f := msg.foldl (onLevelField takesEntries) { f with entryVector := none, entries := [] }
  if !f.hasPlTime && !f.bookTime.empty then { f with plTime := f.bookTime } else f

end BookMsgFields

end Mamda
