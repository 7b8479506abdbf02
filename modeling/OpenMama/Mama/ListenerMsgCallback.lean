import OpenMama.Mama.DqStrategy

/-!
# `listenerMsgCallback`: what a subscription does with a message

`listenerMsgCallback_processMsg` for a subscription of one subject, built without
entitlements.  Until the initial image is there, updates go to the ring of the
context (`dqContext_cacheMsg`); images and recaps go to
`processPointToPointMessage`; every other message is checked and then forwarded
unless the check says not to.
-/

namespace Mama

namespace Dq

structure Subscription where
  transport : Transport
  recoverGaps : Bool
  acceptMultipleInitials : Bool
  expectsUpdates : Bool
  expectingInitial : Bool
  initialArrived : Bool
  imageCount : Nat
  dq : Strategy

namespace Subscription

/-- A subscription that has asked for its initial image. -/
def new (transport : Transport) (cacheSize : Nat) (acceptMultipleInitials : Bool) :
    Subscription where
  transport := transport
  recoverGaps := true
  acceptMultipleInitials := acceptMultipleInitials
  expectsUpdates := true
  expectingInitial := true
  initialArrived := false
  imageCount := 0
  dq := ⟨.initializeContext cacheSize, false⟩

/-- A subscription, the message at hand and what was done. -/
abbrev Result := Subscription × Msg × List Act

/-- `mamaSubscription_checkSeqNum`. -/
def checkSeqNum (x : Subscription) (m : Msg) : Result :=
  if x.recoverGaps then
    let y := x.dq.check x.transport m
    ({ x with dq := ⟨y.ctx, y.tryToFillGap⟩ }, y.msg, y.acts)
  else (x, m, [])

/-- `mamaSubscription_stopWaitForResponse`. -/
def stopWaitForResponse (x : Subscription) : Subscription := { x with expectingInitial := false }

/-- `mamaSubscription_setPossiblyStale`. -/
def setPossiblyStale (x : Subscription) : Subscription × List Act :=
  if x.dq.ctx.dqState = .ok then
    ({ x with dq := { x.dq with ctx := { x.dq.ctx with dqState := .possiblyStale } } },
      [.onQuality .maybeStale])
  else (x, [])

/-- `listenerMsgCallback_invokeErrorCallback`. -/
def invokeErrorCallback (x : Subscription) (error : Error) : Subscription × List Act :=
  (x.stopWaitForResponse, [.onError error])

def isInitialMessageOrRecap : MsgType → Bool
  | .initial | .snapshot | .ddictSnapshot | .recap | .bookInitial | .bookSnapshot
  | .bookRecap => true
  | _ => false

/-- Whether the ring is applied after a message of the type. -/
def appliesCache (t : Transport) (type : MsgType) : Bool :=
  decide (t.preInitialScheme = .onInitial) &&
    match type with
    | .initial | .bookInitial => true
    | .recap | .bookRecap => t.preRecapCacheEnabled
    | _ => false

def processPointToPointMessage (x : Subscription) (m : Msg) : Subscription × List Act :=
  let x :=
    if m.msgTotal = 0 ∨ m.msgNum = m.msgTotal then
      let x := { x with imageCount := x.imageCount + 1, initialArrived := true }
      if x.acceptMultipleInitials then x else x.stopWaitForResponse
    else x
  let (x, m', acts) := x.checkSeqNum m
  let deactivated := if !x.expectsUpdates && !x.acceptMultipleInitials then [.deactivate] else []
  let acts := acts ++ deactivated ++ [.forward m']
  if appliesCache x.transport m.msgType then
    let (c, applied) := x.dq.ctx.applyPreInitialCache
    ({ x with dq := { x.dq with ctx := c.clearCache } }, acts ++ applied)
  else (x, acts)

/-- Whether a message that is no image goes to the ring. -/
def caches (x : Subscription) (m : Msg) : Bool :=
  (x.expectingInitial && !x.initialArrived) ||
    (decide (x.dq.ctx.dqState = .waitingForRecap) && x.transport.preRecapCacheEnabled &&
      !decide (m.msgType = .delete ∨ m.msgType = .expire ∨ m.msgType = .unknown))

def cacheMsg (x : Subscription) (m : Msg) : Subscription :=
  let stale :=
    decide (x.dq.ctx.dqState = .waitingForRecap) && x.transport.preRecapCacheEnabled
  let c := { x.dq.ctx with setCacheMsgStale := x.dq.ctx.setCacheMsgStale || stale }
  { x with dq := { x.dq with ctx := c.cacheMsg m } }

/-- The check of a message and, unless it says not to, its forwarding. -/
def checkAndForward (x : Subscription) (m : Msg) : Subscription × List Act :=
  let (x, m, acts) := x.checkSeqNum m
  (x, if x.dq.ctx.doNotForward then acts else acts ++ [.forward m])

def dispatch (x : Subscription) (m : Msg) : Subscription × List Act :=
  match m.msgType with
  | .refresh => (x, [.respondToRefresh])
  | .delete => x.invokeErrorCallback .delete
  | .expire => x.invokeErrorCallback .expired
  | .notPermissioned => x.invokeErrorCallback .notPermissioned
  | .notFound => x.invokeErrorCallback .notFound
  | .unknown => (x, [])
  | _ => x.checkAndForward m

def processType (x : Subscription) (m : Msg) : Subscription × List Act :=
  if isInitialMessageOrRecap m.msgType then x.processPointToPointMessage m
  else if x.caches m then (x.cacheMsg m, [])
  else x.dispatch m

/-- `listenerMsgCallback_processMsg`. -/
def processMsg (x : Subscription) (m : Msg) : Subscription × List Act :=
  match m.status with
  | .notPermissioned => x.invokeErrorCallback .notPermissioned
  | .badSymbol => x.invokeErrorCallback .badSymbol
  | .expired => x.invokeErrorCallback .expired
  | .notFound => x.invokeErrorCallback .notFound
  | .timeout => x.invokeErrorCallback .timeout
  | .noSubscribers => x.invokeErrorCallback .noSubscribers
  | .bandwidthExceeded => x.invokeErrorCallback .bandwidthExceeded
  | .unknown => x.setPossiblyStale
  | .possiblyStale =>
    if m.msgType = .misc then
      let (x, acts) := x.setPossiblyStale
      let (x, more) := x.processType m
      (x, acts ++ more)
    else x.processType m
  | _ => x.processType m

def process (x : Subscription) : List Msg → Subscription × List Act
  | [] => (x, [])
  | m :: ms =>
    let (y, acts) := x.processMsg m
    let (z, more) := y.process ms
    (z, acts ++ more)

end Subscription

end Dq

end Mama
