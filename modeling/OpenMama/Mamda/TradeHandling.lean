import OpenMama.Mamda.MessageCounts
import OpenMama.Mamda.TradeFields

/-!
# `MamdaTradeListener`: messages

What is done with a message on a cache: the fields are read, the price, the size, the
participant and the time of the trade are taken from the regular or the irregular fields,
the count is checked, and the handler is called by the type of the message.
-/

namespace Mamda.Cached.Trade

/-- The callbacks of a `MamdaTradeHandler`. -/
inductive Name
  | onTradeRecap
  | onTradeReport
  | onTradeGap
  | onTradeCancelOrError
  | onTradeCorrection
  | onTradeClosing
  | onTradeOutOfSequence
  | onTradePossiblyDuplicate
  deriving DecidableEq

abbrev Handled := TradeCache × List (Callback Name TradeCache)

/-! ## The fields -/

/-- The fields of the trade, where it is irregular or not. -/
def setTrade (c : TradeCache) : TradeCache :=
  if c.value .isIrregular then
    (((c.store .tradePrice (c.value .irregPrice)).store .tradeVolume (c.value .irregVolume)).store
      .tradePartId (c.value .irregPartId)).store .eventTime
      (if (c.value .irregTime).empty then c.value .lastTime else c.value .irregTime)
  else
    (((c.store .tradePrice (c.value .lastPrice)).store .tradeVolume (c.value .lastVolume)).store
      .tradePartId (c.value .lastPartId)).store .eventTime (c.value .lastTime)

def Flags.reset (f : Flags) : Flags :=
  { f with
      lastGenericMsgWasTrade := false
      gotTradeTime := false
      gotTradePrice := false
      gotTradeSize := false
      gotTradeCount := false }

def Flags.setLastGenericMsgWasTrade (f : Flags) : Flags :=
  { f with
      lastGenericMsgWasTrade :=
        f.lastGenericMsgWasTrade || f.gotTradeTime || f.gotTradePrice || f.gotTradeSize }

/-- `updateTradeFields`, up to the fields. -/
def beforeFields (m : FieldMsg Fid) (c : TradeCache) : TradeCache :=
  ((c.storeSome .symbol m.getSymbol).storeSome .partId m.getPartId).setFlags Flags.reset

/-- `updateTradeFields`, from the fields on. -/
def afterFields (c : TradeCache) : TradeCache :=
  (setTrade c).setFlags Flags.setLastGenericMsgWasTrade

def updateTradeFields (m : FieldMsg Fid) (c : TradeCache) : TradeCache :=
  afterFields (m.fields.foldl onField (beforeFields m c))

/-! ## The handler -/

/-- What the handlers of a message look at but for the cache. -/
structure Context where
  settings : Settings
  isTransientMsg : Bool
  msgQual : Qualifier

namespace Context

variable (x : Context)

def call (name : Name) (c : TradeCache) : List (Callback Name TradeCache) :=
  if x.settings.handler then [⟨name, c⟩] else []

def invokeTransientHandler (c : TradeCache) : List (Callback Name TradeCache) :=
  (if x.msgQual.getIsOutOfSequence then x.call .onTradeOutOfSequence c else []) ++
    if x.msgQual.getIsPossiblyDuplicate then x.call .onTradePossiblyDuplicate c else []

/-- The call of a message, or the call of a transient one where the settings say so. -/
def invoke (name : Name) (c : TradeCache) : List (Callback Name TradeCache) :=
  if x.settings.usePosDupAndOutOfSeqHandlers && x.isTransientMsg then x.invokeTransientHandler c
  else x.call name c

def setTradeCount (c : TradeCache) : TradeCache := c.store .tradeCount (c.value .tmpTradeCount)

def counts (c : TradeCache) : CountCache where
  count := c.value .tradeCount
  tmpCount := c.value .tmpTradeCount
  gotCount := c.flags.gotTradeCount
  gapBegin := c.value .gapBegin
  gapEnd := c.value .gapEnd

/-- `checkTradeCount`, and whether the message is to be ignored. -/
def checkTradeCount (m : FieldMsg Fid) (checkForGap : Bool) (c : TradeCache) : Handled × Bool :=
  if x.isTransientMsg then ((setTradeCount c, []), false)
  else
    let checked := checkCount (counts c) m.conflateCount checkForGap
    if checked.gap then
      let c := setTradeCount ((c.store .gapBegin checked.cache.gapBegin).store .gapEnd
        checked.cache.gapEnd)
      ((setTradeCount c, x.call .onTradeGap c), checked.ignoreUpdate)
    else ((setTradeCount c, []), checked.ignoreUpdate)

def handleRecap (m : FieldMsg Fid) (c : TradeCache) : Handled :=
  let (c, gap) := (x.checkTradeCount m false c).1
  (c, gap ++ x.invoke .onTradeRecap c)

def handleTrade (m : FieldMsg Fid) (c : TradeCache) : Handled :=
  unlessIgnored (x.checkTradeCount m true c) fun c => (c, x.invoke .onTradeReport c)

/-- The time of the event, where the message has one of its own. -/
def setEventTime (time : Mama.DateTime) (c : TradeCache) : TradeCache :=
  if time.empty then c else c.store .eventTime time

def handleCancelOrError (m : FieldMsg Fid) (isCancel : Bool) (c : TradeCache) : Handled :=
  unlessIgnored (x.checkTradeCount m true c) fun c =>
    let c :=
      setEventTime (c.value .cancelTime) (c.setFlags fun f => { f with isCancel := isCancel })
    (c, x.invoke .onTradeCancelOrError c)

def handleCorrection (m : FieldMsg Fid) (c : TradeCache) : Handled :=
  unlessIgnored (x.checkTradeCount m true c) fun c =>
    let c := setEventTime (c.value .corrTime) c
    (c, x.invoke .onTradeCorrection c)

/-- `handleClosing`, which checks no count. -/
def handleClosing (c : TradeCache) : Handled := (c, x.invoke .onTradeClosing c)

def handleUpdate (m : FieldMsg Fid) (c : TradeCache) : Handled :=
  unlessIgnored (x.checkTradeCount m true c) fun c =>
    (c, if x.settings.usePosDupAndOutOfSeqHandlers && x.isTransientMsg then
        x.invokeTransientHandler c
      else if c.flags.lastGenericMsgWasTrade then x.call .onTradeReport c
      else [])

def handle (m : FieldMsg Fid) (c : TradeCache) : Handled :=
  match m.msgType with
  | .initial | .recap | .preopening | .snapshot => x.handleRecap m c
  | .trade => x.handleTrade m c
  | .cancel => x.handleCancelOrError m true c
  | .error => x.handleCancelOrError m false c
  | .correction => x.handleCorrection m c
  | .closing => x.handleClosing c
  | .update => x.handleUpdate m c
  | .quote | .other => (c, [])

end Context

/-! ## The listener -/

/-- What `handleTradeMessage` does before it reads the message. -/
def beforeMessage (c : TradeCache) : TradeCache :=
  (c.store .wasIrregular (c.value .isIrregular)).updateFieldStates fun _ => true

/-- `handleTradeMessage`, once the cache is chosen. -/
def process (settings : Settings) (isTransientMsg : Bool) (msgQual : Qualifier)
    (m : FieldMsg Fid) (c : TradeCache) : Handled :=
  Context.handle ⟨settings, isTransientMsg, msgQual⟩ m (updateTradeFields m (beforeMessage c))

/-- The types that `onMsg` hands on. -/
def handles (settings : Settings) : TradeMsgType → Bool
  | .quote | .other => false
  | .update => settings.checkUpdatesForTrades
  | _ => true

/-- `onMsg` notes whether the message is a snapshot. -/
def enter (msgType : TradeMsgType) (c : TradeCache) : TradeCache :=
  c.setFlags fun f =>
    { f with isSnapshot := msgType = .snapshot ∨ msgType = .initial ∨ msgType = .recap }

theorem clearCache_clearCache : clearCache (clearCache newCache) = clearCache newCache := by
  ext k
  · simp only [clearCache]
    split <;> rfl
  · rfl
  · rfl

/-- `MamdaTradeListener`. -/
def listener : CachedListener Fid Name TradeCache where
  handles := handles
  enter := enter
  seqNum := .tradeSeqnum
  time := .tradeTime
  eventSeqNum c := c.value .eventSeqNum
  eventTime c := c.value .eventTime
  newCache := newCache
  clearCache := clearCache
  process := process
  enter_enter _ _ _ := rfl
  clearCache_clearCache := clearCache_clearCache

/-! ## The counts

For a message that is not transient, the handlers do to the counts what those of
`Mamda.TradeListener` do (`countsAs_handlers`). -/

def counting (c : TradeCache) : TradeListener where
  cache :=
    { counts := Context.counts c
      lastGenericMsgWasTrade := c.flags.lastGenericMsgWasTrade
      gotTradeTime := c.flags.gotTradeTime
      gotTradePrice := c.flags.gotTradePrice
      gotTradeSize := c.flags.gotTradeSize
      isCancel := c.flags.isCancel }

def counted : Callback Name TradeCache → Option (HandlerCall TradeCallback)
  | ⟨.onTradeGap, c⟩ => some (.gap (c.value .gapBegin) (c.value .gapEnd))
  | ⟨.onTradeRecap, _⟩ => some (.own .onTradeRecap)
  | ⟨.onTradeReport, _⟩ => some (.own .onTradeReport)
  | ⟨.onTradeCancelOrError, c⟩ => some (.own (.onTradeCancelOrError c.flags.isCancel))
  | ⟨.onTradeCorrection, _⟩ => some (.own .onTradeCorrection)
  | ⟨.onTradeClosing, _⟩ => some (.own .onTradeClosing)
  | _ => none

abbrev CountsAs := Mamda.CountsAs counting counted

theorem countsAs_handlers (x : Context) (m : FieldMsg Fid) (t : TradeMsg)
    (hx : x.isTransientMsg = false) (hh : x.settings.handler)
    (ht : t.conflateTradeCount = m.conflateCount) :
    CountsAs (x.handleRecap m) (·.handleRecap t) ∧
    CountsAs (x.handleTrade m) (·.handleTrade t) ∧
    (∀ isCancel, CountsAs (x.handleCancelOrError m isCancel) (·.handleCancelOrError t isCancel)) ∧
    CountsAs (x.handleCorrection m) (·.handleCorrection t) ∧
    CountsAs x.handleClosing (·.handleClosing) ∧
    CountsAs (x.handleUpdate m) (·.handleUpdate t) := by
  have hcall : ∀ name c, x.call name c = [⟨name, c⟩] := fun name c => if_pos hh
  have hinvoke : ∀ name c, x.invoke name c = [⟨name, c⟩] := fun name c => by
    simp [Context.invoke, hx, hcall]
  have hcheck : ∀ checkForGap, ChecksAs counting counted (x.checkTradeCount m checkForGap)
      (·.checkTradeCount t checkForGap) := by
    intro checkForGap c
    have h := checkCount_cache (Context.counts c) m.conflateCount checkForGap
    unfold Context.checkTradeCount TradeListener.checkTradeCount
    simp only [hx, ht, hcall, CountCheck.gapCalls, counting]
    generalize checkCount (Context.counts c) m.conflateCount checkForGap = r at *
    rw [h]
    cases r.gap
    · rfl
    · rfl
  refine ⟨fun c => ?_, (hcheck _).unlessIgnored fun y => ?_, fun isCancel =>
    (hcheck _).unlessIgnored fun y => ?_, (hcheck _).unlessIgnored fun y => ?_, fun c => ?_,
    (hcheck _).unlessIgnored fun y => ?_⟩
  · simp only [Context.handleRecap, TradeListener.handleRecap, ← hcheck _ _, hinvoke,
      List.filterMap_append]
    rfl
  · rw [hinvoke]
    rfl
  · simp only [hinvoke, Context.setEventTime]
    split <;> rfl
  · simp only [hinvoke, Context.setEventTime]
    split <;> rfl
  · rw [Context.handleClosing, hinvoke]
    rfl
  · simp only [hx, Bool.and_false, hcall, counting]
    by_cases h : y.flags.lastGenericMsgWasTrade
    · simp [h, counted]
    · simp [h]

end Mamda.Cached.Trade
