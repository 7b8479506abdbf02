import OpenMama.Mamda.FieldCache

/-!
# Qualified messages at a listener with a cache

`MamdaTradeListenerImpl` and `MamdaQuoteListenerImpl` treat the qualifier of a message
alike: a duplicate is dropped, and a message that is out of sequence or possibly a
duplicate is transient.  What the two differ in is a `CachedListener`: the messages that
they handle, their caches, and what is done with a message and a cache.

`mTradeCache` and `mQuoteCache` are references, bound to the regular cache when the
listener is made.  An assignment to one of them copies a cache into the regular cache.
-/

namespace Mamda.Cached

/-- What the setters of a listener set, and whether it has a handler. -/
structure Settings where
  processPosDupAndOutOfSeqAsTransient : Bool := false
  resolvePossiblyDuplicate : Bool := false
  usePosDupAndOutOfSeqHandlers : Bool := false
  checkUpdatesForTrades : Bool := true
  handler : Bool := true

structure Shown (C : Type) where
  cache : C
  msgQual : Qualifier
  msgQualFieldState : FieldState

structure Callback (Name C : Type) where
  name : Name
  cache : C

structure CachedListener (Fid Name C : Type) where
  handles : Settings → TradeMsgType → Bool
  /-- What `onMsg` sets itself. -/
  enter : TradeMsgType → C → C
  seqNum : Fid
  time : Fid
  eventSeqNum : C → Nat
  eventTime : C → Mama.DateTime
  newCache : C
  clearCache : C → C
  /-- A message is processed on a cache: its fields, and the handling by its type. -/
  process : Settings → Bool → Qualifier → FieldMsg Fid → C → C × List (Callback Name C)
  enter_enter : ∀ t u c, enter t (enter u c) = enter t c
  clearCache_clearCache : clearCache (clearCache newCache) = clearCache newCache

structure ListenerState (C : Type) where
  regularCache : C
  transientCache : Option C
  msgQual : Qualifier
  msgQualFieldState : FieldState
  isTransientMsg : Bool

/-- A listener that is made; its regular cache is given, and so is what memory holds where no member
is set. -/
def ListenerState.new {C : Type} (regularCache : C) (msgQualFieldState : FieldState) :
    ListenerState C :=
  ⟨regularCache, none, .clear, msgQualFieldState, false⟩

def ListenerState.shown {C : Type} (s : ListenerState C) : Shown C :=
  ⟨s.regularCache, s.msgQual, s.msgQualFieldState⟩

namespace CachedListener

variable {Fid Name C : Type} [DecidableEq Fid] (L : CachedListener Fid Name C)
  (settings : Settings)

/-- A message that is possibly a duplicate is one where its sequence number and its time are both
before those of the regular record. -/
def resolve (regularCache : C) (m : FieldMsg Fid) (msgQual : Qualifier) : Qualifier :=
  match m.field L.seqNum, m.field L.time with
  | some seqNum, some eventTime =>
    if seqNum.getU32 < L.eventSeqNum regularCache ∧
        eventTime.getDateTime.compare (L.eventTime regularCache) < 0 then
      msgQual.setDuplicate
    else msgQual
  | _, _ => msgQual

/-- The qualifier of a message, as `evaluateMsgQual` leaves it. -/
def qualifier (regularCache : C) (m : FieldMsg Fid) : Qualifier :=
  match m.qual with
  | none => .clear
  | some msgQual =>
    if msgQual.getIsPossiblyDuplicate && settings.resolvePossiblyDuplicate then
      L.resolve regularCache m msgQual
    else msgQual

/-- `evaluateMsgQual`, with whether the message is a duplicate. -/
def evaluateMsgQual (s : ListenerState C) (m : FieldMsg Fid) : ListenerState C × Bool :=
  let msgQual := L.qualifier settings s.regularCache m
  let isDuplicateMsg := msgQual.getIsDefinatelyDuplicate
  ({ s with
      msgQual := msgQual
      isTransientMsg := !isDuplicateMsg &&
        (msgQual.getIsOutOfSequence || msgQual.getIsPossiblyDuplicate) }, isDuplicateMsg)

/-- The message is processed on the current cache, which is the regular one. -/
def processFields (s : ListenerState C) (m : FieldMsg Fid) :
    ListenerState C × List (Callback Name C) :=
  let (cache, calls) := L.process settings s.isTransientMsg s.msgQual m s.regularCache
  ({ s with regularCache := cache }, calls)

/-- The transient cache is made where there is none, and copied into the current cache. -/
def useTransientCache (s : ListenerState C) : ListenerState C :=
  let transientCache := s.transientCache.getD L.newCache
  { s with transientCache := some transientCache, regularCache := transientCache }

/-- The regular cache is copied into the current cache, which it is, and the transient cache is
cleared. -/
def useRegularCache (s : ListenerState C) : ListenerState C :=
  { s with
      regularCache := s.regularCache
      transientCache := s.transientCache.map L.clearCache }

/-- `handleTradeMessage` and `handleQuoteMessage`. -/
def handleMessage (s : ListenerState C) (m : FieldMsg Fid) :
    ListenerState C × List (Callback Name C) :=
  match L.evaluateMsgQual settings s m with
  | (s, true) => (s, [])
  | (s, false) =>
    if s.isTransientMsg && settings.processPosDupAndOutOfSeqAsTransient then
      let (s, calls) := L.processFields settings (L.useTransientCache s) m
      (L.useRegularCache s, calls)
    else L.processFields settings s m

/-- What `onMsg` sets itself. -/
def entered (s : ListenerState C) (m : FieldMsg Fid) : ListenerState C :=
  { s with regularCache := L.enter m.msgType s.regularCache }

def onMsg (s : ListenerState C) (m : FieldMsg Fid) :
    ListenerState C × List (Callback Name C) :=
  if L.handles settings m.msgType then L.handleMessage settings (L.entered s m) m
  else (L.entered s m, [])

def step (s : ListenerState C) (m : FieldMsg Fid) : ListenerState C := (L.onMsg settings s m).1

def isTransient (s : ListenerState C) (m : FieldMsg Fid) : Bool :=
  L.handles settings m.msgType &&
    (L.evaluateMsgQual settings (L.entered s m) m).1.isTransientMsg

end CachedListener

/-- A message that no qualifier says to be out of sequence or a duplicate. -/
def FieldMsg.isRegular {Fid : Type} (m : FieldMsg Fid) : Bool :=
  m.qual.all fun q =>
    !(q.getIsOutOfSequence || q.getIsPossiblyDuplicate || q.getIsDefinatelyDuplicate)

end Mamda.Cached
