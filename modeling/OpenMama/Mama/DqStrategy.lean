import Mathlib.Init

/-!
# `dqStrategy`: sequence numbers and the quality of a stream

`dqstrategy.c` watches the sequence numbers of the messages of one subject.  A
context (`Context`) holds the latest number, the sender and the state of the
stream, and a ring of messages that arrived before the initial image.
`checkSeqNum` decides for one message whether the stream is in order, what the
client is told and whether the message is forwarded.

`checkSeqNum` reads the context into locals before the takeover branch changes
it; here these are the argument `old`.  What is told to the client or asked of
the publisher is kept in order as `Act`s.  A field that a message lacks reads as
the source reads it: a sequence number or a sender as zero, a conflate count as
one.
-/

namespace Mama

namespace Dq

/-! ## Messages -/

inductive MsgType
  | update
  | initial
  | recap
  | delete
  | expire
  | snapshot
  | quote
  | trade
  | bookInitial
  | bookUpdate
  | bookRecap
  | bookSnapshot
  | notPermissioned
  | notFound
  | secStatus
  | ddictSnapshot
  | misc
  | refresh
  | unknown
  | other
  deriving DecidableEq, Repr

/-- `mamaMsgStatus`. -/
inductive MsgStatus
  | ok
  | lineDown
  | noSubscribers
  | badSymbol
  | expired
  | timeout
  | misc
  | stale
  | platformStatus
  | notEntitled
  | notFound
  | possiblyStale
  | notPermissioned
  | topicChange
  | bandwidthExceeded
  | duplicate
  | unknown
  deriving DecidableEq, Repr

structure Msg where
  msgType : MsgType
  seqNum : UInt32
  senderId : UInt64
  conflateCount : Option UInt16
  status : MsgStatus
  msgTotal : Int
  msgNum : Int
  deriving DecidableEq

/-- `msgUtils_setStatus`. -/
def Msg.setStatus (m : Msg) (status : MsgStatus) : Msg := { m with status := status }

def Msg.conflateCnt (m : Msg) : UInt32 :=
  match m.msgType with
  | .secStatus | .bookUpdate => 1
  | _ => (m.conflateCount.map UInt16.toUInt32).getD 1

/-! ## The context -/

/-- `dqState`. -/
inductive State
  | ok
  | notEstablished
  | waitingForRecap
  | possiblyStale
  | duplicate
  | staleNoRecap
  | waitingForRecapAfterFt
  deriving DecidableEq, Repr

/-- `mamaDqContext`.  The list is the ring, empty where none is allocated. -/
structure Context where
  seqNum : UInt32
  dqState : State
  cache : List (Option Msg)
  curCacheIdx : Nat
  senderId : UInt64
  doNotForward : Bool
  setCacheMsgStale : Bool
  deriving DecidableEq

/-- `preInitialScheme`. -/
inductive PreInitialScheme
  | onGap
  | onInitial
  deriving DecidableEq, Repr

/-- `dqStartegyScheme`. -/
inductive DqScheme
  | deliverAll
  | ignoreDups
  deriving DecidableEq, Repr

/-- `dqftStrategyScheme`. -/
inductive FtScheme
  | doNotWaitForRecap
  | waitForRecap
  deriving DecidableEq, Repr

structure Transport where
  preInitialScheme : PreInitialScheme
  dqScheme : DqScheme
  ftScheme : FtScheme
  preRecapCacheEnabled : Bool

/-- The qualities that `onQuality` reports. -/
inductive Quality
  | ok
  | maybeStale
  | stale
  | duplicate
  deriving DecidableEq, Repr

/-- The errors that `onError` reports. -/
inductive Error
  | notPermissioned
  | badSymbol
  | expired
  | notFound
  | timeout
  | noSubscribers
  | bandwidthExceeded
  | delete
  deriving DecidableEq, Repr

/-- What is done to the rest of the program, a callback only if there is one. -/
inductive Act
  | onQuality (quality : Quality)
  | onGap
  | recapRequest
  | unsetAllPossiblyStale
  | forward (m : Msg)
  | onError (error : Error)
  | deactivate
  | respondToRefresh
  deriving DecidableEq

/-- A context with `mTryToFillGap` of its strategy, the message at hand and the acts so far. -/
structure Step where
  ctx : Context
  tryToFillGap : Bool
  msg : Msg
  acts : List Act
  deriving DecidableEq

namespace Step

def emit (x : Step) (a : Act) : Step := { x with acts := x.acts ++ [a] }

def setCtx (x : Step) (f : Context → Context) : Step := { x with ctx := f x.ctx }

end Step

/-! ## The ring -/

namespace Context

/-- `dqContext_initializeContext`, on a context without a ring. -/
def initializeContext (cacheSize : Nat) : Context where
  seqNum := 0
  dqState := .notEstablished
  cache := List.replicate cacheSize none
  curCacheIdx := 0
  senderId := 0
  doNotForward := false
  setCacheMsgStale := false

/-- `dqContext_clearCache` that keeps the array. -/
def clearCache (c : Context) : Context :=
  if c.cache = [] then c
  else { c with cache := List.replicate c.cache.length none, curCacheIdx := 0 }

/-- `dqContext_cacheMsg`. -/
def cacheMsg (c : Context) (m : Msg) : Context :=
  if c.cache = [] then c
  else
    let idx := c.curCacheIdx + 1
    { c with
      cache := c.cache.set c.curCacheIdx (some m)
      curCacheIdx := if idx = c.cache.length then 0 else idx }

/-- The loop of `dqContext_applyPreInitialCache`, over the slots below `mCurCacheIdx`: the
number of the context and what is forwarded. -/
def applyLoop (seqNum : UInt32) : List (Option Msg) → UInt32 × List Act
  | [] => (seqNum, [])
  | none :: _ => (seqNum, [])
  | some m :: slots =>
    if m.seqNum = seqNum + 1 then
      let (last, acts) := applyLoop m.seqNum slots
      (last, .forward m :: acts)
    else if m.seqNum > seqNum + 1 then (seqNum, [])
    else applyLoop seqNum slots

/-- `dqContext_applyPreInitialCache`. -/
def applyPreInitialCache (c : Context) : Context × List Act :=
  let (last, acts) := applyLoop c.seqNum (c.cache.take c.curCacheIdx)
  ({ c with seqNum := last }, acts)

def slot (c : Context) (i : Nat) : Option Msg := c.cache.getD i none

/-- The loop of `dqContext_fillGap` from slot `cur`: whether the gap up to `last` is filled, and
what is forwarded.  It comes back to where it started after as many turns as there are slots, at
the latest. -/
def fillLoop (c : Context) (last : UInt32) : Nat → UInt32 → Nat → Bool × List Act
  | 0, _, _ => (false, [])
  | turns + 1, nextSeqNum, cur =>
    match c.slot cur with
    | none => (false, [])
    | some m =>
      let next := if cur + 1 = c.cache.length then 0 else cur + 1
      let rest (nextSeqNum : UInt32) : Bool × List Act :=
        if next = c.curCacheIdx then (false, []) else c.fillLoop last turns nextSeqNum next
      if m.seqNum = nextSeqNum then
        let m := if c.setCacheMsgStale then m.setStatus .stale else m
        if nextSeqNum + 1 = last then (true, [.forward m])
        else
          let (filled, acts) := rest (nextSeqNum + 1)
          (filled, .forward m :: acts)
      else rest nextSeqNum

/-- `dqContext_fillGap`. -/
def fillGap (c : Context) (last : UInt32) : Bool × Context × List Act :=
  if c.cache = [] then (false, { c with setCacheMsgStale := false }, [])
  else
    let cur := if (c.slot c.curCacheIdx).isNone then 0 else c.curCacheIdx
    let (filled, acts) := c.fillLoop last c.cache.length (c.seqNum + 1) cur
    (filled, { c with setCacheMsgStale := c.setCacheMsgStale && filled }, acts)

end Context

/-! ## `dqStrategy_checkSeqNum` -/

namespace Step

/-- `dqStrategyImpl_resetDqContext`. -/
def resetDqContext (x : Step) (seqNum : UInt32) (senderId : UInt64) : Step :=
  x.setCtx fun c => { c with seqNum := seqNum, senderId := senderId }

def setState (x : Step) (state : State) : Step := x.setCtx fun c => { c with dqState := state }

def setDoNotForward (x : Step) (b : Bool) : Step := x.setCtx fun c => { c with doNotForward := b }

def resetDqState (x : Step) : Step :=
  (if x.ctx.dqState ≠ .ok ∧ x.ctx.dqState ≠ .notEstablished then x.emit (.onQuality .ok)
    else x).setState .ok

def handleFTTakeover (x : Step) (recoverOnRecap : Bool) : Step :=
  if recoverOnRecap then
    x.setCtx fun c => { c with seqNum := x.msg.seqNum, dqState := .waitingForRecapAfterFt }
  else x.resetDqState.resetDqContext x.msg.seqNum x.msg.senderId

/-- `dqStrategy_sendRecapRequest`. -/
def sendRecapRequest (x : Step) : Step := (x.setState .waitingForRecap).emit .recapRequest

def handleStaleData (x : Step) : Step :=
  let x := { x with msg := x.msg.setStatus .stale }
  match x.ctx.dqState with
  | .waitingForRecap => x
  | .possiblyStale => x.sendRecapRequest
  | _ => x.sendRecapRequest.emit (.onQuality .stale)

/-- A sequence number was missed: the gap is filled from the ring, or told. -/
def missedSeqNum (t : Transport) (x : Step) : Step :=
  if t.preInitialScheme = .onGap ∧ x.tryToFillGap then
    let (filled, c, acts) := x.ctx.fillGap x.msg.seqNum
    let x := { x with tryToFillGap := false, ctx := c.clearCache, acts := x.acts ++ acts }
    if filled then x.setCtx fun c => { c with seqNum := x.msg.seqNum }
    else (x.emit .onGap).handleStaleData
  else (x.emit .onGap).handleStaleData

/-- What follows where an update is not the next one; `old` is the context before the
takeover. -/
def checkDuplicate (t : Transport) (old : Context) (x : Step) : Step :=
  -- the test of the two waiting states holds of any state
  if t.dqScheme = .ignoreDups ∧ x.msg.seqNum ≤ old.seqNum ∧
      (old.dqState ≠ .waitingForRecap ∨ old.dqState ≠ .waitingForRecapAfterFt) then
    x.setDoNotForward true
  else if x.msg.seqNum = old.seqNum ∧ old.dqState ≠ .waitingForRecapAfterFt then
    let x := (x.setState .duplicate).emit (.onQuality .duplicate)
    { x with msg := x.msg.setStatus .duplicate }
  else if old.dqState = .waitingForRecapAfterFt then x.setDoNotForward true
  else missedSeqNum t x

/-- The branch of `checkSeqNum` for updates. -/
def checkUpdate (t : Transport) (old : Context) (x : Step) : Step :=
  if (old.dqState = .notEstablished ∨ x.msg.seqNum = 0 ∨
        x.msg.seqNum = old.seqNum + x.msg.conflateCnt) ∧
      (old.dqState ≠ .waitingForRecap ∨ old.dqState ≠ .waitingForRecapAfterFt) then
    let x :=
      if x.tryToFillGap then { x.setCtx Context.clearCache with tryToFillGap := false } else x
    let x := x.emit .unsetAllPossiblyStale
    if x.msg.status = .ok then x.resetDqState.setCtx fun c => { c with seqNum := x.msg.seqNum }
    else checkDuplicate t old x
  else checkDuplicate t old x

/-- The branch for recaps, and for initials that are not stale. -/
def checkRecap (t : Transport) (x : Step) : Step :=
  let x := if t.preRecapCacheEnabled then { x with tryToFillGap := true } else x
  ((x.emit .unsetAllPossiblyStale).resetDqState.resetDqContext x.msg.seqNum
    x.msg.senderId).setDoNotForward false

def checkInitial (t : Transport) (x : Step) : Step :=
  let x := { x with tryToFillGap := true }
  if x.msg.status = .possiblyStale ∨ x.msg.status = .stale then
    (x.setState .staleNoRecap).resetDqContext x.msg.seqNum x.msg.senderId
  else checkRecap t x

def checkType (t : Transport) (old : Context) (x : Step) : Step :=
  match x.msg.msgType with
  | .initial | .bookInitial => checkInitial t x
  | .recap | .bookRecap => checkRecap t x
  | .ddictSnapshot => x
  | _ => checkUpdate t old x

end Step

/-- Whether a message comes from another sender than the context's. -/
def Context.takenOver (c : Context) (m : Msg) : Bool :=
  decide (c.senderId ≠ 0) && (decide (m.senderId ≠ 0) && decide (c.senderId ≠ m.senderId))

/-- `dqStrategy_checkSeqNum`. -/
def checkSeqNum (t : Transport) (x : Step) : Step :=
  let old := x.ctx
  let x := x.setDoNotForward false
  if old.takenOver x.msg then
    if t.ftScheme = .waitForRecap then
      ((x.setDoNotForward true).handleFTTakeover true).checkType t old
    else x.handleFTTakeover false
  else x.checkType t old

/-! ## Runs -/

/-- A context and `mTryToFillGap` between two messages. -/
structure Strategy where
  ctx : Context
  tryToFillGap : Bool
  deriving DecidableEq

namespace Strategy

/-- One message through `checkSeqNum`, with its acts. -/
def check (t : Transport) (x : Strategy) (m : Msg) : Step :=
  checkSeqNum t ⟨x.ctx, x.tryToFillGap, m, []⟩

def next (t : Transport) (x : Strategy) (m : Msg) : Strategy :=
  ⟨(x.check t m).ctx, (x.check t m).tryToFillGap⟩

def run (t : Transport) (x : Strategy) (ms : List Msg) : Strategy := ms.foldl (next t) x

end Strategy

end Dq

end Mama
