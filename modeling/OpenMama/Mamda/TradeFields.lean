import OpenMama.Mamda.CachedListener

/-!
# `TradeCache`: the fields of a trade

The members of `TradeCache`, what clears them, and the updaters of the fields.  Most
updaters set one member and its state (`store`).  Those of the price, the size, the
participant and the time of a trade also say whether the trade is irregular.
-/

namespace Mamda.Cached.Trade

/-- The members of `TradeCache` that have a state. -/
inductive Key
  | symbol | partId | srcTime | actTime | lineTime | sendTime | pubId | isIrregular
  | wasIrregular | lastPrice | lastVolume | lastPartId | lastTime | tradeDate | side | irregPrice
  | irregVolume | irregPartId | irregTime | accVolume | offExAccVolume | onExAccVolume
  | tradeDirection | netChange | pctChange | openPrice | highPrice | lowPrice | closePrice
  | prevClosePrice | prevCloseDate | adjPrevClose | tradeCount | blockVolume | blockCount | vwap
  | offExVwap | onExVwap | totalValue | offExTotalValue | onExTotalValue | stdDev | orderId
  | stdDevSum | stdDevSumSquares | tradeUnits | lastSeqNum | highSeqNum | lowSeqNum
  | totalVolumeSeqNum | currencyCode | uniqueId | corrTradeId | tradeAction | settlePrice
  | settleDate | offExchangeTradePrice | onExchangeTradePrice | tradeId | origTradeId
  | genericFlag | eventSeqNum | eventTime | tradePrice | tradeVolume | tradePartId | tradeQualStr
  | tradeQualNativeStr | sellersSaleDays | stopStockInd | tmpTradeCount | tradeExecVenue
  | origSeqNum | origPrice | origVolume | origPartId | origQualStr | origQualNativeStr
  | origSellersSaleDays | origStopStockInd | corrPrice | corrVolume | corrPartId | corrQualStr
  | corrQualNativeStr | corrSellersSaleDays | corrStopStockInd | cancelTime | corrTime
  | shortSaleCircuitBreaker | origShortSaleCircuitBreaker | corrShortSaleCircuitBreaker
  | gapBegin | gapEnd
  deriving DecidableEq

@[reducible] def Key.kind : Key → Kind
  | .symbol | .partId | .pubId | .lastPartId | .side | .irregPartId | .tradeUnits | .currencyCode
  | .uniqueId | .corrTradeId | .tradeAction | .tradeId | .origTradeId | .tradePartId
  | .tradeQualStr | .tradeQualNativeStr | .origPartId | .origQualStr | .origQualNativeStr
  | .corrPartId | .corrQualStr | .corrQualNativeStr => .text
  | .srcTime | .actTime | .lineTime | .sendTime | .lastTime | .tradeDate | .irregTime
  | .prevCloseDate | .settleDate | .eventTime | .cancelTime | .corrTime => .time
  | .isIrregular | .wasIrregular | .genericFlag => .bool
  | .lastPrice | .lastVolume | .irregPrice | .irregVolume | .accVolume | .offExAccVolume
  | .onExAccVolume | .netChange | .pctChange | .openPrice | .highPrice | .lowPrice | .closePrice
  | .prevClosePrice | .adjPrevClose | .blockVolume | .vwap | .offExVwap | .onExVwap | .totalValue
  | .offExTotalValue | .onExTotalValue | .stdDev | .stdDevSum | .stdDevSumSquares | .settlePrice
  | .offExchangeTradePrice | .onExchangeTradePrice | .tradePrice | .tradeVolume | .origPrice
  | .origVolume | .corrPrice | .corrVolume => .number
  | .tradeDirection | .tradeCount | .blockCount | .lastSeqNum | .highSeqNum | .lowSeqNum
  | .totalVolumeSeqNum | .eventSeqNum | .sellersSaleDays | .tmpTradeCount | .tradeExecVenue
  | .origSeqNum | .origSellersSaleDays | .corrSellersSaleDays | .gapBegin | .gapEnd => .count
  | .orderId => .id
  | .stopStockInd | .origStopStockInd | .corrStopStockInd | .shortSaleCircuitBreaker
  | .origShortSaleCircuitBreaker | .corrShortSaleCircuitBreaker => .char

/-- `MamdaTradeFields`: the fields that have an updater, and the rest. -/
inductive Fid
  | srcTime | activityTime | sendTime | lineTime | pubId | tradePrice | tradeDate | tradeSide
  | aggressorSide | tradeTime | lastDirection | netChange | pctChange | tradeSize | totalVolume
  | offExchangeTotalVolume | onExchangeTotalVolume | tradeUnits | highPrice | lowPrice
  | openPrice | closePrice | prevClosePrice | prevCloseDate | adjPrevClose | tradeSeqnum
  | tradeQualifier | tradePartId | totalValue | offExchangeTotalValue | onExchangeTotalValue
  | vwap | offExchangeVwap | onExchangeVwap | stdDev | stdDevSum | stdDevSumSquares | lastSeqnum
  | highSeqnum | lowSeqnum | totalVolumeSeqnum | currencyCode | saleCondition | sellersSaleDays
  | isIrregular | irregPartId | irregPrice | irregSize | irregTime | origPartId | origPrice
  | origSize | origSeqnum | origTradeQualifier | origSaleCondition | origSellersSaleDays
  | origStopStockInd | stopStockInd | corrPartId | corrPrice | corrSize | corrTradeQualifier
  | corrSaleCondition | corrSellersSaleDays | corrStopStockInd | corrTime | cancelTime
  | corrTradeId | tradeId | origTradeId | tradeCount | blockCount | blockVolume | orderId
  | uniqueId | tradeAction | tradeExecVenue | settlePrice | settleDate | offExchangeTradePrice
  | onExchangeTradePrice | genericFlag | shortSaleCircuitBreaker | origShortSaleCircuitBreaker
  | corrShortSaleCircuitBreaker
  | other
  deriving DecidableEq

/-- The members of `TradeCache` that have no state. -/
structure Flags where
  isSnapshot : Bool := false
  isCancel : Bool := false
  gotTradeTime : Bool := false
  gotTradePrice : Bool := false
  gotTradeSize : Bool := false
  gotTradeCount : Bool := false
  lastGenericMsgWasTrade : Bool := false
  deriving DecidableEq

abbrev TradeCache := Cache Key.kind Flags

/-- `TRADE_DIR_UNKNOWN`. -/
def tradeDirUnknown : Nat := 99

/-- `TradeCache ()`. -/
def newCache : TradeCache := ⟨fun k => k.kind.zero, fun _ => .notInitialised, {}⟩

/-- The members that `clearCache` leaves as they are. -/
def Key.notCleared : Key → Bool
  | .symbol | .partId | .srcTime | .actTime | .lineTime | .pubId | .lastPrice | .lastPartId
  | .lastTime | .tradeDate | .irregPrice => true
  | _ => false

/-- The values that `clearCache` sets. -/
def clearedValue : (k : Key) → k.kind.Type
  | .tradeDirection => tradeDirUnknown
  | .stopStockInd => ' '
  | .origStopStockInd => ' '
  | .corrStopStockInd => ' '
  | .shortSaleCircuitBreaker => ' '
  | .origShortSaleCircuitBreaker => ' '
  | .corrShortSaleCircuitBreaker => ' '
  | k => k.kind.zero

def clearCache (c : TradeCache) : TradeCache where
  value k := if k.notCleared then c.value k else clearedValue k
  state _ := .notInitialised
  flags := {}

/-! ## Updaters -/

/-- `TradeFieldUpdate`. -/
abbrev Update := Cached.Update Fid Key.kind Flags

def regular (c : TradeCache) : TradeCache :=
  if c.flags.isSnapshot then c else c.put .isIrregular false

/-- A field of an irregular trade, if its value is set. -/
def irregular (isSet : Bool) (c : TradeCache) : TradeCache :=
  if !c.flags.isSnapshot && isSet && !c.value .isIrregular then c.store .isIrregular true else c

/-- `toString` of a `MamdaTradeSide`. -/
def tradeSideToString : Nat → String
  | 1 => "Buy"
  | 2 => "Sell"
  | _ => "Unknown"

def mamdaTradeDirectionFromString (tradeDir : String) : Nat :=
  if tradeDir = "" ∨ tradeDir = "0" then 0
  else if tradeDir = "+" ∨ tradeDir = "1" then 1
  else if tradeDir = "-" ∨ tradeDir = "2" then 2
  else if tradeDir = "0+" ∨ tradeDir = "3" then 3
  else if tradeDir = "0-" ∨ tradeDir = "4" then 4
  else if tradeDir = "NA" ∨ tradeDir = "5" then 5
  else tradeDirUnknown

/-- `mamdaTradeExecVenueFromString`.  As a number in a text, 2 is not the venue that the number 2 is
in an integer. -/
def mamdaTradeExecVenueFromString (venue : String) : Nat :=
  if venue = "OnExchange" ∨ venue = "1" then 1
  else if venue = "OnExchangeOffBook" ∨ venue = "6" then 2
  else if venue = "OffExchange" ∨ venue = "3" then 3
  else if venue = "SystemInternaliser" ∨ venue = "4" then 4
  else if venue = "OnExchangeDarkBook" ∨ venue = "5" then 5
  else if venue = "OnExchangeOnBook" ∨ venue = "2" then 6
  else 0

def getTradeDirection (field : MsgField Fid) : Nat :=
  match field.type with
  | .integer => field.getU32
  | .string => mamdaTradeDirectionFromString field.getString
  | _ => tradeDirUnknown

def getTradeExecVenue (field : MsgField Fid) : Nat :=
  match field.type with
  | .integer => field.getU32
  | .string => mamdaTradeExecVenueFromString field.getString
  | _ => 0

/-- The text of a side, where the type of the field is one that is looked for. -/
def getTradeSide (field : MsgField Fid) : Option String :=
  match field.type with
  | .integer => some (tradeSideToString field.getU32)
  | .string => some field.getString
  | _ => none

def getIndicator (field : MsgField Fid) : Option Char :=
  match field.type with
  | .char => some field.getChar
  | .string => some (firstChar field.getString)
  | _ => none

def getText (field : MsgField Fid) : String :=
  match field.type with
  | .string => field.getString
  | _ => field.getAsString

def fieldUpdateLastPrice : Update := fun field c =>
  regular ((c.store .lastPrice field.getPrice).setFlags fun f => { f with gotTradePrice := true })

def fieldUpdateLastVolume : Update := fun field c =>
  regular ((c.store .lastVolume field.getF64).setFlags fun f => { f with gotTradeSize := true })

def fieldUpdateLastPartId : Update := fun field c =>
  regular (c.store .lastPartId field.getString)

def fieldUpdateLastTime : Update := fun field c =>
  if field.getDateTime.hasTime then
    (c.store .lastTime field.getDateTime).setFlags fun f => { f with gotTradeTime := true }
  else c

def fieldUpdateTradeDate : Update := store .tradeDate MsgField.getDateTime

def fieldUpdateTradeSide : Update := storeSome .side getTradeSide

def fieldUpdateAggressorSide : Update := store .side fun field => String.singleton field.getChar

def fieldUpdateTradeQualifier : Update := store .tradeQualStr MsgField.getString

def fieldUpdateTradeQualifierNative : Update := store .tradeQualNativeStr MsgField.getString

def fieldUpdateSellersSaleDays : Update := store .sellersSaleDays MsgField.getU32

def fieldUpdateStopStockInd : Update := storeSome .stopStockInd getIndicator

def fieldUpdateIsIrregular : Update := store .isIrregular MsgField.getBool

def fieldUpdateIrregPrice : Update := fun field c =>
  irregular (field.getPrice ≠ 0)
    ((c.store .irregPrice field.getPrice).setFlags fun f => { f with gotTradePrice := true })

def fieldUpdateIrregVolume : Update := fun field c =>
  irregular (field.getF64 ≠ 0)
    ((c.store .irregVolume field.getF64).setFlags fun f => { f with gotTradeSize := true })

def fieldUpdateIrregPartId : Update := fun field c =>
  irregular (field.getString ≠ "") (c.store .irregPartId field.getString)

def fieldUpdateIrregTime : Update := fun field c =>
  irregular field.getDateTime.hasTime
    ((c.store .irregTime field.getDateTime).setFlags fun f => { f with gotTradeTime := true })

def fieldUpdateOrderId : Update := store .orderId MsgField.getI64

def fieldUpdateTradeSrcTime : Update := store .srcTime MsgField.getDateTime

def fieldUpdateTradeActTime : Update := store .actTime MsgField.getDateTime

def fieldUpdateTradeSendTime : Update := store .sendTime MsgField.getDateTime

def fieldUpdateTradeLineTime : Update := store .lineTime MsgField.getDateTime

def fieldUpdateTradePubId : Update := store .pubId MsgField.getString

def fieldUpdateTradeEventSeqNum : Update := store .eventSeqNum MsgField.getU32

def fieldUpdateTmpTradeCount : Update := fun field c =>
  (c.store .tmpTradeCount field.getU32).setFlags fun f => { f with gotTradeCount := true }

def fieldUpdateAccVolume : Update := store .accVolume MsgField.getF64

def fieldUpdateOffExAccVolume : Update := store .offExAccVolume MsgField.getF64

def fieldUpdateOnExAccVolume : Update := store .onExAccVolume MsgField.getF64

def fieldUpdateTradeDirection : Update := store .tradeDirection getTradeDirection

def fieldUpdateOpenPrice : Update := store .openPrice MsgField.getPrice

def fieldUpdateHighPrice : Update := store .highPrice MsgField.getPrice

def fieldUpdateLowPrice : Update := store .lowPrice MsgField.getPrice

def fieldUpdateNetChange : Update := store .netChange MsgField.getPrice

def fieldUpdatePctChange : Update := store .pctChange MsgField.getF64

def fieldUpdateBlockCount : Update := store .blockCount MsgField.getU32

def fieldUpdateBlockVolume : Update := store .blockVolume MsgField.getF64

def fieldUpdateVwap : Update := store .vwap MsgField.getF64

def fieldUpdateOffExVwap : Update := store .offExVwap MsgField.getF64

def fieldUpdateOnExVwap : Update := store .onExVwap MsgField.getF64

def fieldUpdateTotalValue : Update := store .totalValue MsgField.getF64

def fieldUpdateOffExTotalValue : Update := store .offExTotalValue MsgField.getF64

def fieldUpdateOnExTotalValue : Update := store .onExTotalValue MsgField.getF64

def fieldUpdateStdDev : Update := store .stdDev MsgField.getF64

def fieldUpdateStdDevSum : Update := store .stdDevSum MsgField.getF64

def fieldUpdateStdDevSumSquares : Update := store .stdDevSumSquares MsgField.getF64

def fieldUpdateTradeUnits : Update := store .tradeUnits MsgField.getString

def fieldUpdateLastSeqNum : Update := store .lastSeqNum MsgField.getU32

def fieldUpdateHighSeqNum : Update := store .highSeqNum MsgField.getU32

def fieldUpdateLowSeqNum : Update := store .lowSeqNum MsgField.getU32

def fieldUpdateTotalVolumeSeqNum : Update := store .totalVolumeSeqNum MsgField.getU32

def fieldUpdateCurrencyCode : Update := store .currencyCode MsgField.getString

def fieldUpdateClosePrice : Update := store .closePrice MsgField.getPrice

def fieldUpdatePrevClosePrice : Update := store .prevClosePrice MsgField.getPrice

def fieldUpdatePrevCloseDate : Update := store .prevCloseDate MsgField.getDateTime

def fieldUpdateAdjPrevClose : Update := store .adjPrevClose MsgField.getPrice

def fieldUpdateOrigSeqNum : Update := store .origSeqNum MsgField.getU32

def fieldUpdateOrigPrice : Update := store .origPrice MsgField.getPrice

def fieldUpdateOrigVolume : Update := store .origVolume MsgField.getF64

def fieldUpdateOrigPartId : Update := store .origPartId MsgField.getString

def fieldUpdateOrigQualifier : Update := store .origQualStr MsgField.getString

def fieldUpdateOrigQualifierNative : Update := store .origQualNativeStr MsgField.getString

def fieldUpdateOrigSaleDays : Update := store .origSellersSaleDays MsgField.getU32

def fieldUpdateOrigStopStockInd : Update := storeSome .origStopStockInd getIndicator

def fieldUpdateCancelTime : Update := store .cancelTime MsgField.getDateTime

def fieldUpdateCorrPrice : Update := store .corrPrice MsgField.getPrice

def fieldUpdateCorrVolume : Update := store .corrVolume MsgField.getF64

def fieldUpdateCorrPartId : Update := store .corrPartId MsgField.getString

def fieldUpdateCorrQualifier : Update := store .corrQualStr MsgField.getString

def fieldUpdateCorrQualifierNative : Update := store .corrQualNativeStr MsgField.getString

def fieldUpdateCorrSaleDays : Update := store .corrSellersSaleDays MsgField.getU32

def fieldUpdateCorrStopStockInd : Update := storeSome .corrStopStockInd getIndicator

def fieldUpdateCorrTime : Update := store .corrTime MsgField.getDateTime

def fieldUpdateUniqueId : Update := store .uniqueId MsgField.getString

def fieldUpdateCorrTradeId : Update := store .corrTradeId MsgField.getString

def fieldUpdateTradeAction : Update := store .tradeAction MsgField.getString

def fieldUpdateTradeExecVenue : Update := store .tradeExecVenue getTradeExecVenue

def fieldUpdateSettlePrice : Update := store .settlePrice MsgField.getPrice

def fieldUpdateSettleDate : Update := store .settleDate MsgField.getDateTime

def fieldUpdateOffExchangeTradePrice : Update := store .offExchangeTradePrice MsgField.getPrice

def fieldUpdateOnExchangeTradePrice : Update := store .onExchangeTradePrice MsgField.getPrice

def fieldUpdateTradeId : Update := store .tradeId getText

def fieldUpdateOrigTradeId : Update := store .origTradeId getText

def fieldUpdateGenericFlag : Update := store .genericFlag MsgField.getBool

def fieldUpdateShortSaleCircuitBreaker : Update :=
  storeOther .shortSaleCircuitBreaker MsgField.getChar

def fieldUpdateOrigShortSaleCircuitBreaker : Update :=
  storeOther .origShortSaleCircuitBreaker MsgField.getChar

def fieldUpdateCorrShortSaleCircuitBreaker : Update :=
  storeOther .corrShortSaleCircuitBreaker MsgField.getChar

/-- `initFieldUpdaters`. -/
def fieldUpdater : Fid → Option Update
  | .srcTime => some fieldUpdateTradeSrcTime
  | .activityTime => some fieldUpdateTradeActTime
  | .sendTime => some fieldUpdateTradeSendTime
  | .lineTime => some fieldUpdateTradeLineTime
  | .pubId => some fieldUpdateTradePubId
  | .tradePrice => some fieldUpdateLastPrice
  | .tradeDate => some fieldUpdateTradeDate
  | .tradeSide => some fieldUpdateTradeSide
  | .aggressorSide => some fieldUpdateAggressorSide
  | .tradeTime => some fieldUpdateLastTime
  | .lastDirection => some fieldUpdateTradeDirection
  | .netChange => some fieldUpdateNetChange
  | .pctChange => some fieldUpdatePctChange
  | .tradeSize => some fieldUpdateLastVolume
  | .totalVolume => some fieldUpdateAccVolume
  | .offExchangeTotalVolume => some fieldUpdateOffExAccVolume
  | .onExchangeTotalVolume => some fieldUpdateOnExAccVolume
  | .tradeUnits => some fieldUpdateTradeUnits
  | .highPrice => some fieldUpdateHighPrice
  | .lowPrice => some fieldUpdateLowPrice
  | .openPrice => some fieldUpdateOpenPrice
  | .closePrice => some fieldUpdateClosePrice
  | .prevClosePrice => some fieldUpdatePrevClosePrice
  | .prevCloseDate => some fieldUpdatePrevCloseDate
  | .adjPrevClose => some fieldUpdateAdjPrevClose
  | .tradeSeqnum => some fieldUpdateTradeEventSeqNum
  | .tradeQualifier => some fieldUpdateTradeQualifier
  | .tradePartId => some fieldUpdateLastPartId
  | .totalValue => some fieldUpdateTotalValue
  | .offExchangeTotalValue => some fieldUpdateOffExTotalValue
  | .onExchangeTotalValue => some fieldUpdateOnExTotalValue
  | .vwap => some fieldUpdateVwap
  | .offExchangeVwap => some fieldUpdateOffExVwap
  | .onExchangeVwap => some fieldUpdateOnExVwap
  | .stdDev => some fieldUpdateStdDev
  | .stdDevSum => some fieldUpdateStdDevSum
  | .stdDevSumSquares => some fieldUpdateStdDevSumSquares
  | .lastSeqnum => some fieldUpdateLastSeqNum
  | .highSeqnum => some fieldUpdateHighSeqNum
  | .lowSeqnum => some fieldUpdateLowSeqNum
  | .totalVolumeSeqnum => some fieldUpdateTotalVolumeSeqNum
  | .currencyCode => some fieldUpdateCurrencyCode
  | .saleCondition => some fieldUpdateTradeQualifierNative
  | .sellersSaleDays => some fieldUpdateSellersSaleDays
  | .isIrregular => some fieldUpdateIsIrregular
  | .irregPartId => some fieldUpdateIrregPartId
  | .irregPrice => some fieldUpdateIrregPrice
  | .irregSize => some fieldUpdateIrregVolume
  | .irregTime => some fieldUpdateIrregTime
  | .origPartId => some fieldUpdateOrigPartId
  | .origPrice => some fieldUpdateOrigPrice
  | .origSize => some fieldUpdateOrigVolume
  | .origSeqnum => some fieldUpdateOrigSeqNum
  | .origTradeQualifier => some fieldUpdateOrigQualifier
  | .origSaleCondition => some fieldUpdateOrigQualifierNative
  | .origSellersSaleDays => some fieldUpdateOrigSaleDays
  | .origStopStockInd => some fieldUpdateOrigStopStockInd
  | .stopStockInd => some fieldUpdateStopStockInd
  | .corrPartId => some fieldUpdateCorrPartId
  | .corrPrice => some fieldUpdateCorrPrice
  | .corrSize => some fieldUpdateCorrVolume
  | .corrTradeQualifier => some fieldUpdateCorrQualifier
  | .corrSaleCondition => some fieldUpdateCorrQualifierNative
  | .corrSellersSaleDays => some fieldUpdateCorrSaleDays
  | .corrStopStockInd => some fieldUpdateCorrStopStockInd
  | .corrTime => some fieldUpdateCorrTime
  | .cancelTime => some fieldUpdateCancelTime
  | .corrTradeId => some fieldUpdateCorrTradeId
  | .tradeId => some fieldUpdateTradeId
  | .origTradeId => some fieldUpdateOrigTradeId
  | .tradeCount => some fieldUpdateTmpTradeCount
  | .blockCount => some fieldUpdateBlockCount
  | .blockVolume => some fieldUpdateBlockVolume
  | .orderId => some fieldUpdateOrderId
  | .uniqueId => some fieldUpdateUniqueId
  | .tradeAction => some fieldUpdateTradeAction
  | .tradeExecVenue => some fieldUpdateTradeExecVenue
  | .settlePrice => some fieldUpdateSettlePrice
  | .settleDate => some fieldUpdateSettleDate
  | .offExchangeTradePrice => some fieldUpdateOffExchangeTradePrice
  | .onExchangeTradePrice => some fieldUpdateOnExchangeTradePrice
  | .genericFlag => some fieldUpdateGenericFlag
  | .shortSaleCircuitBreaker => some fieldUpdateShortSaleCircuitBreaker
  | .origShortSaleCircuitBreaker => some fieldUpdateOrigShortSaleCircuitBreaker
  | .corrShortSaleCircuitBreaker => some fieldUpdateCorrShortSaleCircuitBreaker
  | .other => none

def onField (c : TradeCache) (field : MsgField Fid) : TradeCache :=
  match fieldUpdater field.fid with
  | some updater => updater field c
  | none => c

end Mamda.Cached.Trade
