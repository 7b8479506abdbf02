import OpenMama.Mamda.CachedListener

/-!
# `QuoteCache`: the fields of a quote

The members of `QuoteCache`, what clears them, and the updaters of the fields.  Most
updaters set one member and its state (`store`).  Those of a price, a size, a depth or a
participant look whether the field changes anything (`storeChanged`).
-/

namespace Mamda.Cached.Quote

/-- The members of `QuoteCache` that have a state. -/
inductive Key
  | symbol | partId | srcTime | actTime | lineTime | sendTime | pubId | bidPrice | bidSize
  | bidDepth | bidPartId | bidClosePrice | bidCloseDate | bidPrevClosePrice | bidPrevCloseDate
  | bidHigh | bidLow | askPrice | askSize | askDepth | askPartId | askClosePrice | askCloseDate
  | askPrevClosePrice | askPrevCloseDate | askHigh | askLow | midPrice | eventSeqNum | eventTime
  | quoteDate | quoteQualStr | quoteQualNative | askTime | bidTime | askIndicator | bidIndicator
  | askUpdateCount | bidUpdateCount | askYield | bidYield | tmpQuoteCount | quoteCount | gapBegin
  | gapEnd | bidSizesList | askSizesList | shortSaleCircuitBreaker | shortSaleBidTick
  deriving DecidableEq

@[reducible] def Key.kind : Key → Kind
  | .symbol | .partId | .pubId | .bidPartId | .askPartId | .quoteQualStr | .quoteQualNative
  | .askIndicator | .bidIndicator | .bidSizesList | .askSizesList => .text
  | .srcTime | .actTime | .lineTime | .sendTime | .bidCloseDate | .bidPrevCloseDate
  | .askCloseDate | .askPrevCloseDate | .eventTime | .quoteDate | .askTime | .bidTime => .time
  | .bidPrice | .bidSize | .bidDepth | .bidClosePrice | .bidPrevClosePrice | .bidHigh | .bidLow
  | .askPrice | .askSize | .askDepth | .askClosePrice | .askPrevClosePrice | .askHigh | .askLow
  | .midPrice | .askYield | .bidYield => .number
  | .eventSeqNum | .askUpdateCount | .bidUpdateCount | .tmpQuoteCount | .quoteCount | .gapBegin
  | .gapEnd => .count
  | .shortSaleCircuitBreaker | .shortSaleBidTick => .char

/-- `MamdaQuoteFields`: the fields that have an updater, and the rest. -/
inductive Fid
  | srcTime | activityTime | lineTime | pubId | sendTime | bidPrice | bidSize | bidDepth
  | bidPartId | bidClosePrice | bidCloseDate | bidPrevClosePrice | bidPrevCloseDate | bidHigh
  | bidLow | askPrice | askSize | askDepth | askPartId | askClosePrice | askCloseDate
  | askPrevClosePrice | askPrevCloseDate | askHigh | askLow | quoteSeqNum | quoteTime | quoteDate
  | quoteQual | quoteQualNative | quoteCount | shortSaleBidTick | bidTick | askTime | bidTime
  | askIndicator | bidIndicator | askUpdateCount | bidUpdateCount | askYield | bidYield
  | bidSizesList | askSizesList | shortSaleCircuitBreaker
  | other
  deriving DecidableEq

/-- The members of `QuoteCache` that have no state. -/
structure Flags where
  lastGenericMsgWasQuote : Bool := false
  gotBidPrice : Bool := false
  gotAskPrice : Bool := false
  gotBidSize : Bool := false
  gotAskSize : Bool := false
  gotBidDepth : Bool := false
  gotAskDepth : Bool := false
  gotBidPartId : Bool := false
  gotAskPartId : Bool := false
  gotQuoteCount : Bool := false
  deriving DecidableEq

abbrev QuoteCache := Cache Key.kind Flags

/-- `QuoteCache ()`. -/
def newCache : QuoteCache := ⟨fun k => k.kind.zero, fun _ => .notInitialised, {}⟩

/-- The values that `clearCache` sets. -/
def clearedValue : (k : Key) → k.kind.Type
  | .shortSaleBidTick => 'Z'
  | .shortSaleCircuitBreaker => ' '
  | k => k.kind.zero

/-- The members whose state `clearCache` leaves as it is. -/
def Key.stateNotCleared : Key → Bool
  | .askPartId | .shortSaleBidTick => true
  | _ => false

/-- `clearCache`.  The participant of the ask side is left as it is. -/
def clearCache (c : QuoteCache) : QuoteCache where
  value k := if k = .askPartId then c.value k else clearedValue k
  state k := if k.stateNotCleared then c.state k else .notInitialised
  flags := {}

/-- The members whose state `updateFieldStates` looks at. -/
def Key.ages : Key → Bool
  | .symbol | .askPartId | .shortSaleBidTick => false
  | _ => true

/-! ## Updaters -/

/-- `QuoteFieldUpdate`. -/
abbrev Update := Cached.Update Fid Key.kind Flags

/-- An updater that sets a value, its state and a flag if it is not the value there is. -/
def storeChanged (k : Key) (get : MsgField Fid → k.kind.Type) (got : Flags → Flags) : Update :=
  fun field c =>
    if c.value k ≠ get field then (c.store k (get field)).setFlags got else c

def getIndicator (field : MsgField Fid) : Option String :=
  match field.type with
  | .string => some field.getString
  | .char => some (String.singleton field.getChar)
  | _ => none

def getTick (field : MsgField Fid) : Option Char :=
  match field.type with
  | .char => some field.getChar
  | .string => some (firstChar field.getString)
  | _ => none

def fieldUpdateQuoteSrcTime : Update := store .srcTime MsgField.getDateTime

def fieldUpdateQuoteSendTime : Update := store .sendTime MsgField.getDateTime

def fieldUpdateQuoteActTime : Update := store .actTime MsgField.getDateTime

def fieldUpdateQuoteLineTime : Update := store .lineTime MsgField.getDateTime

def fieldUpdateQuotePubId : Update := store .pubId MsgField.getString

def fieldUpdateBidPrice : Update := fun field c =>
  if c.value .bidPrice ≠ field.getPrice ∨ c.state .bidPrice = .notInitialised then
    (c.store .bidPrice field.getPrice).setFlags fun f => { f with gotBidPrice := true }
  else c

def fieldUpdateBidSize : Update :=
  storeChanged .bidSize MsgField.getF64 fun f => { f with gotBidSize := true }

def fieldUpdateBidDepth : Update :=
  storeChanged .bidDepth MsgField.getF64 fun f => { f with gotBidDepth := true }

def fieldUpdateBidPartId : Update :=
  storeChanged .bidPartId MsgField.getString fun f => { f with gotBidPartId := true }

def fieldUpdateBidClosePrice : Update := store .bidClosePrice MsgField.getPrice

def fieldUpdateBidCloseDate : Update := store .bidCloseDate MsgField.getDateTime

def fieldUpdateBidPrevClosePrice : Update := store .bidPrevClosePrice MsgField.getPrice

def fieldUpdateBidPrevCloseDate : Update := store .bidPrevCloseDate MsgField.getDateTime

def fieldUpdateBidHigh : Update := store .bidHigh MsgField.getPrice

def fieldUpdateBidLow : Update := store .bidLow MsgField.getPrice

def fieldUpdateAskPrice : Update :=
  storeChanged .askPrice MsgField.getPrice fun f => { f with gotAskPrice := true }

def fieldUpdateAskSize : Update :=
  storeChanged .askSize MsgField.getF64 fun f => { f with gotAskSize := true }

def fieldUpdateAskDepth : Update :=
  storeChanged .askDepth MsgField.getF64 fun f => { f with gotAskDepth := true }

def fieldUpdateAskPartId : Update :=
  storeChanged .askPartId MsgField.getString fun f => { f with gotAskPartId := true }

def fieldUpdateAskClosePrice : Update := store .askClosePrice MsgField.getPrice

def fieldUpdateAskCloseDate : Update := store .askCloseDate MsgField.getDateTime

def fieldUpdateAskPrevClosePrice : Update := store .askPrevClosePrice MsgField.getPrice

def fieldUpdateAskPrevCloseDate : Update := store .askPrevCloseDate MsgField.getDateTime

def fieldUpdateAskHigh : Update := store .askHigh MsgField.getPrice

def fieldUpdateAskLow : Update := store .askLow MsgField.getPrice

def fieldUpdateQuoteSeqNum : Update := store .eventSeqNum MsgField.getU32

def fieldUpdateQuoteTime : Update := store .eventTime MsgField.getDateTime

def fieldUpdateQuoteDate : Update := store .quoteDate MsgField.getDateTime

def fieldUpdateTmpQuoteCount : Update := fun field c =>
  (c.store .tmpQuoteCount field.getU32).setFlags fun f => { f with gotQuoteCount := true }

def fieldUpdateQuoteQual : Update := store .quoteQualStr MsgField.getString

def fieldUpdateQuoteQualNative : Update := storeSome .quoteQualNative getIndicator

def fieldUpdateAskTime : Update := store .askTime MsgField.getDateTime

def fieldUpdateBidTime : Update := store .bidTime MsgField.getDateTime

def fieldUpdateBidIndicator : Update := storeSome .bidIndicator getIndicator

def fieldUpdateAskIndicator : Update := storeSome .askIndicator getIndicator

def fieldUpdateBidUpdateCount : Update := store .bidUpdateCount MsgField.getU32

def fieldUpdateAskUpdateCount : Update := store .askUpdateCount MsgField.getU32

def fieldUpdateAskYield : Update := store .askYield MsgField.getF64

def fieldUpdateBidYield : Update := store .bidYield MsgField.getF64

def fieldUpdateBidSizesList : Update := store .bidSizesList MsgField.getString

def fieldUpdateAskSizesList : Update := store .askSizesList MsgField.getString

def fieldUpdateShortSaleCircuitBreaker : Update :=
  storeOther .shortSaleCircuitBreaker MsgField.getChar

def fieldUpdateShortSaleBidTick : Update := putSome .shortSaleBidTick getTick

def fieldUpdateBidTick : Update := putSome .shortSaleBidTick getTick

/-- `initFieldUpdaters`. -/
def fieldUpdater : Fid → Option Update
  | .srcTime => some fieldUpdateQuoteSrcTime
  | .activityTime => some fieldUpdateQuoteActTime
  | .lineTime => some fieldUpdateQuoteLineTime
  | .pubId => some fieldUpdateQuotePubId
  | .sendTime => some fieldUpdateQuoteSendTime
  | .bidPrice => some fieldUpdateBidPrice
  | .bidSize => some fieldUpdateBidSize
  | .bidDepth => some fieldUpdateBidDepth
  | .bidPartId => some fieldUpdateBidPartId
  | .bidClosePrice => some fieldUpdateBidClosePrice
  | .bidCloseDate => some fieldUpdateBidCloseDate
  | .bidPrevClosePrice => some fieldUpdateBidPrevClosePrice
  | .bidPrevCloseDate => some fieldUpdateBidPrevCloseDate
  | .bidHigh => some fieldUpdateBidHigh
  | .bidLow => some fieldUpdateBidLow
  | .askPrice => some fieldUpdateAskPrice
  | .askSize => some fieldUpdateAskSize
  | .askDepth => some fieldUpdateAskDepth
  | .askPartId => some fieldUpdateAskPartId
  | .askClosePrice => some fieldUpdateAskClosePrice
  | .askCloseDate => some fieldUpdateAskCloseDate
  | .askPrevClosePrice => some fieldUpdateAskPrevClosePrice
  | .askPrevCloseDate => some fieldUpdateAskPrevCloseDate
  | .askHigh => some fieldUpdateAskHigh
  | .askLow => some fieldUpdateAskLow
  | .quoteSeqNum => some fieldUpdateQuoteSeqNum
  | .quoteTime => some fieldUpdateQuoteTime
  | .quoteDate => some fieldUpdateQuoteDate
  | .quoteQual => some fieldUpdateQuoteQual
  | .quoteQualNative => some fieldUpdateQuoteQualNative
  | .quoteCount => some fieldUpdateTmpQuoteCount
  | .shortSaleBidTick => some fieldUpdateShortSaleBidTick
  | .bidTick => some fieldUpdateBidTick
  | .askTime => some fieldUpdateAskTime
  | .bidTime => some fieldUpdateBidTime
  | .askIndicator => some fieldUpdateAskIndicator
  | .bidIndicator => some fieldUpdateBidIndicator
  | .askUpdateCount => some fieldUpdateAskUpdateCount
  | .bidUpdateCount => some fieldUpdateBidUpdateCount
  | .askYield => some fieldUpdateAskYield
  | .bidYield => some fieldUpdateBidYield
  | .bidSizesList => some fieldUpdateBidSizesList
  | .askSizesList => some fieldUpdateAskSizesList
  | .shortSaleCircuitBreaker => some fieldUpdateShortSaleCircuitBreaker
  | .other => none

def onField (c : QuoteCache) (field : MsgField Fid) : QuoteCache :=
  match fieldUpdater field.fid with
  | some updater => updater field c
  | none => c

end Mamda.Cached.Quote
