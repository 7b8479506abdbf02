import OpenMama.Mamda.MessageCounts
import OpenMama.Mamda.QuoteFields

/-!
# `MamdaQuoteListener`: messages

What is done with a message on a cache: the fields are read, the count is checked, and
the handler is called by the type of the message.
-/

namespace Mamda.Cached.Quote

/-- The callbacks of a `MamdaQuoteHandler`. -/
inductive Name
  | onQuoteRecap
  | onQuoteUpdate
  | onQuoteGap
  | onQuoteClosing
  | onQuoteOutOfSequence
  | onQuotePossiblyDuplicate
  deriving DecidableEq

abbrev Handled := QuoteCache × List (Callback Name QuoteCache)

/-! ## The fields -/

def Flags.setLastGenericMsgWasQuote (f : Flags) : Flags :=
  { f with
      lastGenericMsgWasQuote :=
        f.lastGenericMsgWasQuote || f.gotBidSize || f.gotAskSize || f.gotBidDepth ||
          f.gotAskDepth || f.gotBidPrice || f.gotAskPrice || f.gotBidPartId || f.gotAskPartId }

/-- `updateQuoteFields`, up to the fields. -/
def beforeFields (m : FieldMsg Fid) (c : QuoteCache) : QuoteCache :=
  ((c.storeSome .symbol m.getSymbol).storeSome .partId m.getPartId).setFlags fun _ => {}

def updateQuoteFields (m : FieldMsg Fid) (c : QuoteCache) : QuoteCache :=
  (m.fields.foldl onField (beforeFields m c)).setFlags Flags.setLastGenericMsgWasQuote

/-! ## The handler -/

/-- What the handlers of a message look at but for the cache. -/
structure Context where
  settings : Settings
  isTransientMsg : Bool
  msgQual : Qualifier

namespace Context

variable (x : Context)

def call (name : Name) (c : QuoteCache) : List (Callback Name QuoteCache) :=
  if x.settings.handler then [⟨name, c⟩] else []

def invokeTransientHandler (c : QuoteCache) : List (Callback Name QuoteCache) :=
  (if x.msgQual.getIsOutOfSequence then x.call .onQuoteOutOfSequence c else []) ++
    if x.msgQual.getIsPossiblyDuplicate then x.call .onQuotePossiblyDuplicate c else []

/-- The call of a message, or the call of a transient one where the settings say so. -/
def invoke (name : Name) (c : QuoteCache) : List (Callback Name QuoteCache) :=
  if x.settings.usePosDupAndOutOfSeqHandlers && x.isTransientMsg then x.invokeTransientHandler c
  else x.call name c

/-- The count is taken from the message; its state stays as it is. -/
def setQuoteCount (c : QuoteCache) : QuoteCache := c.put .quoteCount (c.value .tmpQuoteCount)

def counts (c : QuoteCache) : CountCache where
  count := c.value .quoteCount
  tmpCount := c.value .tmpQuoteCount
  gotCount := c.flags.gotQuoteCount
  gapBegin := c.value .gapBegin
  gapEnd := c.value .gapEnd

/-- `checkQuoteCount`, and whether the message is to be ignored. -/
def checkQuoteCount (m : FieldMsg Fid) (checkForGap : Bool) (c : QuoteCache) : Handled × Bool :=
  if x.isTransientMsg then ((setQuoteCount c, []), false)
  else
    let checked := checkCount (counts c) m.conflateCount checkForGap
    if checked.gap then
      let c := setQuoteCount ((c.put .gapBegin checked.cache.gapBegin).put .gapEnd
        checked.cache.gapEnd)
      ((setQuoteCount c, x.call .onQuoteGap c), checked.ignoreUpdate)
    else ((setQuoteCount c, []), checked.ignoreUpdate)

def handleRecap (m : FieldMsg Fid) (c : QuoteCache) : Handled :=
  let (c, gap) := (x.checkQuoteCount m false c).1
  (c, gap ++ x.invoke .onQuoteRecap c)

def handleQuote (m : FieldMsg Fid) (c : QuoteCache) : Handled :=
  unlessIgnored (x.checkQuoteCount m true c) fun c =>
    (c, x.invoke (if c.value .quoteQualStr = "Closing" then .onQuoteClosing else .onQuoteUpdate) c)

/-- `handleUpdate`.  Once the handler is called, the flag that a quote came is taken back. -/
def handleUpdate (m : FieldMsg Fid) (c : QuoteCache) : Handled :=
  unlessIgnored (x.checkQuoteCount m true c) fun c =>
    if x.settings.handler && c.flags.lastGenericMsgWasQuote then
      (c.setFlags fun f => { f with lastGenericMsgWasQuote := false }, x.invoke .onQuoteUpdate c)
    else (c, [])

def handle (m : FieldMsg Fid) (c : QuoteCache) : Handled :=
  match m.msgType with
  | .initial | .recap | .preopening | .snapshot => x.handleRecap m c
  | .quote => x.handleQuote m c
  | .update | .trade => x.handleUpdate m c
  | _ => (c, [])

end Context

/-! ## The listener -/

/-- `handleQuoteMessage`, once the cache is chosen. -/
def process (settings : Settings) (isTransientMsg : Bool) (msgQual : Qualifier)
    (m : FieldMsg Fid) (c : QuoteCache) : Handled :=
  Context.handle ⟨settings, isTransientMsg, msgQual⟩ m
    (updateQuoteFields m (c.updateFieldStates Key.ages))

/-- The types that `onMsg` hands on. -/
def handles (_ : Settings) : TradeMsgType → Bool
  | .snapshot | .initial | .recap | .preopening | .quote | .update | .trade => true
  | _ => false

theorem clearCache_clearCache : clearCache (clearCache newCache) = clearCache newCache := by
  ext k
  · simp only [clearCache]
    split <;> rfl
  · simp only [clearCache]
    split <;> rfl
  · rfl

/-- `MamdaQuoteListener`. -/
def listener : CachedListener Fid Name QuoteCache where
  handles := handles
  enter _ c := c
  seqNum := .quoteSeqNum
  time := .quoteTime
  eventSeqNum c := c.value .eventSeqNum
  eventTime c := c.value .eventTime
  newCache := newCache
  clearCache := clearCache
  process := process
  enter_enter _ _ _ := rfl
  clearCache_clearCache := clearCache_clearCache

/-! ## The counts -/

def counting (c : QuoteCache) : QuoteListener where
  cache :=
    { counts := Context.counts c
      lastGenericMsgWasQuote := c.flags.lastGenericMsgWasQuote
      quoteQualStr := c.value .quoteQualStr
      bid := ⟨c.value .bidPrice, c.state .bidPrice ≠ .notInitialised, c.value .bidSize,
        c.value .bidDepth, c.value .bidPartId, c.flags.gotBidPrice, c.flags.gotBidSize,
        c.flags.gotBidDepth, c.flags.gotBidPartId⟩
      ask := ⟨c.value .askPrice, c.state .askPrice ≠ .notInitialised, c.value .askSize,
        c.value .askDepth, c.value .askPartId, c.flags.gotAskPrice, c.flags.gotAskSize,
        c.flags.gotAskDepth, c.flags.gotAskPartId⟩ }

def counted : Callback Name QuoteCache → Option (HandlerCall QuoteCallback)
  | ⟨.onQuoteGap, c⟩ => some (.gap (c.value .gapBegin) (c.value .gapEnd))
  | ⟨.onQuoteRecap, _⟩ => some (.own .onQuoteRecap)
  | ⟨.onQuoteUpdate, _⟩ => some (.own .onQuoteUpdate)
  | ⟨.onQuoteClosing, _⟩ => some (.own .onQuoteClosing)
  | _ => none

abbrev CountsAs := Mamda.CountsAs counting counted

theorem countsAs_handlers (x : Context) (m : FieldMsg Fid) (q : QuoteMsg)
    (hx : x.isTransientMsg = false) (hh : x.settings.handler)
    (hq : q.conflateQuoteCount = m.conflateCount) :
    CountsAs (x.handleRecap m) (·.handleRecap q) ∧
    CountsAs (x.handleQuote m) (·.handleQuote q) ∧
    CountsAs (x.handleUpdate m) (·.handleUpdate q) := by
  have hcall : ∀ name c, x.call name c = [⟨name, c⟩] := fun name c => if_pos hh
  have hinvoke : ∀ name c, x.invoke name c = [⟨name, c⟩] := fun name c => by
    simp [Context.invoke, hx, hcall]
  have hcheck : ∀ checkForGap, ChecksAs counting counted (x.checkQuoteCount m checkForGap)
      (·.checkQuoteCount q checkForGap) := by
    intro checkForGap c
    have h := checkCount_cache (Context.counts c) m.conflateCount checkForGap
    unfold Context.checkQuoteCount QuoteListener.checkQuoteCount
    simp only [hx, hq, hcall, CountCheck.gapCalls, counting]
    generalize checkCount (Context.counts c) m.conflateCount checkForGap = r at *
    rw [h]
    cases r.gap
    · rfl
    · rfl
  refine ⟨fun c => ?_, (hcheck _).unlessIgnored fun y => ?_, (hcheck _).unlessIgnored fun y => ?_⟩
  · simp only [Context.handleRecap, QuoteListener.handleRecap, ← hcheck _ _, hinvoke,
      List.filterMap_append]
    rfl
  · rw [hinvoke, counting]
    by_cases h : y.value .quoteQualStr = "Closing"
    · simp [h, counted]
    · simp [h, counted]
  · by_cases h : y.flags.lastGenericMsgWasQuote
    · simp [hh, hinvoke, counting, h, counted, Context.counts, Cache.setFlags]
    · simp [counting, h]

end Mamda.Cached.Quote
