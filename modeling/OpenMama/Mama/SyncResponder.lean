import Mathlib.Logic.Function.Basic

/-!
# `syncResponder`: the topics of a transport, a few at a time

A feed handler asks for the topics that a transport has listeners for.  `mamaSyncCommand_create`
collects them, `mamaSyncCommand_run` and `timerCB` send them, at once or with a timer between two
replies, and the responder ends the command and frees it (`endCB`).  A division by zero, a
comparison with a null string and a write behind an array are `none`.

The listeners do not change meanwhile, and there are fewer of them than an `int` counts.
-/

namespace Mama

namespace Sync

/-! ## Listeners -/

/-- `mamaSubscriptionType`. -/
inductive SubscriptionType
  | normal
  | group
  | book
  | basic
  | dictionary
  | symbolList
  | symbolListNormal
  | symbolListGroup
  | symbolListBook
  deriving DecidableEq, Repr

def SubscriptionType.toInt : SubscriptionType → Int
  | .normal => 0
  | .group => 1
  | .book => 2
  | .basic => 3
  | .dictionary => 4
  | .symbolList => 5
  | .symbolListNormal => 6
  | .symbolListGroup => 7
  | .symbolListBook => 8

structure Listener where
  mTransportIndex : Int
  mType : SubscriptionType
  mSubscSource : Option String
  mUserSymbol : Option String

/-- `mamaSubscription_getSource`, into a variable that was null. -/
def Listener.getSource (l : Listener) : Option String :=
  if l.mType = .basic then none else l.mSubscSource

/-- A transport; where it has a refresh transport, that one has the new listeners. -/
structure Transport where
  mListeners : List Listener
  mRefreshTransport : Option (List Listener)

/-- The number of listeners: `refreshTransport_numListeners`, or the size of the list. -/
def Transport.numListeners (t : Transport) : Nat :=
  match t.mRefreshTransport with
  | some mNewListeners => mNewListeners.length + t.mListeners.length
  | none => t.mListeners.length

/-- The listeners in the order of the iteration: `refreshTransport_iterateListeners`, or the
list. -/
def Transport.listeners (t : Transport) : List Listener :=
  match t.mRefreshTransport with
  | some mNewListeners => t.mListeners ++ mNewListeners
  | none => t.mListeners

/-- `topicsForSourceClosure`: what was written to the arrays so far. -/
structure Topics where
  topics : List String
  types : List Int

/-- Whether `strcmp` finds two strings equal. -/
def strcmpEqual (a b : Option String) : Option Bool := do
  let x ← a
  let y ← b
  some (x == y)

def topicsForSourceIterator (size : Nat) (transportIndex : Int) (source : Option String)
    (c : Topics) (l : Listener) : Option Topics :=
  if l.mTransportIndex = transportIndex then do
    let fits ← if source.isNone && l.getSource.isSome then some true else do
      let equal ← strcmpEqual source l.getSource
      some (equal || (source.isNone && l.getSource.isNone))
    if fits then
      match l.mUserSymbol with
      | some topic =>
        if c.topics.length < size then
          some ⟨c.topics ++ [topic], c.types ++ [l.mType.toInt]⟩
        else none
      | none => some c
    else some c
  else some c

/-- `mamaTransportImpl_getTopicsAndTypesForSource`. -/
def Transport.getTopicsAndTypesForSource (t : Transport) (transportIndex : Int)
    (source : Option String) : Option Topics :=
  t.listeners.foldlM (topicsForSourceIterator t.numListeners transportIndex source) ⟨[], []⟩

/-! ## The command -/

/-- A request, with the index of the transport that it came from. -/
structure Request where
  transportIndex : Int
  source : Option String
  topicsPerMsg : Option UInt16
  responseDelay : Option Float
  responseDuration : Option Float

structure Reply where
  topics : List String
  types : List Int
  deriving DecidableEq

inductive Output
  | reply (r : Reply)
  | ended
  deriving DecidableEq

/-- `syncCommand`; of the timer, whether there is one. -/
structure SyncCommand where
  mMsg : Request
  mTimer : Bool
  mCurIndex : Nat
  mTopicsPerMsg : UInt16
  mTopics : List String
  mTopicsLen : Nat
  mTypes : List Int
  mResponseInterval : Float

/-- `mamaSyncCommand_create` with `setup`. -/
def SyncCommand.create (t : Transport) (r : Request) : Option SyncCommand := do
  let c ← t.getTopicsAndTypesForSource r.transportIndex r.source
  let topicsPerMsg := r.topicsPerMsg.getD 0
  let duration := r.responseDuration.getD 0.0
  -- the number of messages, which is divided by what the request says
  let intervals ← if topicsPerMsg = 0 then none else some (c.topics.length / topicsPerMsg.toNat)
  some {
    mMsg := r
    mTimer := false
    mCurIndex := 0
    mTopicsPerMsg := topicsPerMsg
    mTopics := c.topics
    mTopicsLen := c.topics.length
    mTypes := c.types
    mResponseInterval := if intervals > 0 then 2.0 * duration / intervals.toFloat else 0.0 }

namespace SyncCommand

/-- `sendNextMessage`: how many topics are left, and the reply. -/
def sendNextMessage (c : SyncCommand) : Nat × SyncCommand × Output :=
  let topicsLeft := c.mTopicsLen - c.mCurIndex
  let topicsToSend :=
    if topicsLeft > c.mTopicsPerMsg.toNat then c.mTopicsPerMsg.toNat else topicsLeft
  (topicsLeft - topicsToSend, { c with mCurIndex := c.mCurIndex + topicsToSend },
    .reply ⟨(c.mTopics.drop c.mCurIndex).take topicsToSend,
      (c.mTypes.drop c.mCurIndex).take topicsToSend⟩)

/-- The loop of `timerCB`. -/
def sendAll : Nat → SyncCommand → Option (List Output)
  | 0, _ => none
  | fuel + 1, c =>
    let (left, c, reply) := c.sendNextMessage
    if left = 0 then some [reply]
    else do
      let rest ← sendAll fuel c
      some (reply :: rest)

/-- `timerCB`: the command, unless it is ended, and what it does. -/
def timerCB (c : SyncCommand) : Option (Option SyncCommand × List Output) :=
  if c.mResponseInterval == 0.0 then do
    let replies ← sendAll (c.mTopicsLen + 1) c
    some (none, replies ++ [.ended])
  else
    let (left, c, reply) := c.sendNextMessage
    if left = 0 then some (none, [reply, .ended])
    else some (some { c with mTimer := true }, [reply])

/-- `mamaSyncCommand_run`. -/
def run (c : SyncCommand) : Option (Option SyncCommand × List Output) :=
  if c.mTopicsLen = 0 then some (none, [.ended])
  else if c.mMsg.responseDelay.getD 0.0 != 0.0 then some (some { c with mTimer := true }, [])
  else c.timerCB

end SyncCommand

/-! ## The responder -/

/-- `mamaCmResponderImpl`: the pending commands, by the order in which they came, and what each
did. -/
structure CmResponder where
  mPendingCommands : Nat → Option SyncCommand
  requests : Nat
  outputs : Nat → List Output

namespace CmResponder

def new : CmResponder := ⟨fun _ => none, 0, fun _ => []⟩

inductive Event
  | msgCB (r : Request)
  | timerCB (command : Nat)

def record (s : CmResponder) (command : Nat) (result : Option SyncCommand × List Output) :
    CmResponder :=
  { s with
    mPendingCommands := Function.update s.mPendingCommands command result.1
    outputs := Function.update s.outputs command (s.outputs command ++ result.2) }

def step (t : Transport) (s : CmResponder) : Event → Option CmResponder
  | .msgCB r => do
    let c ← SyncCommand.create t r
    let result ← c.run
    some ({ s with requests := s.requests + 1 }.record s.requests result)
  | .timerCB command =>
    match s.mPendingCommands command with
    | some c =>
      if c.mTimer then do
        let result ← c.timerCB
        some (s.record command result)
      else some s
    | none => some s

end CmResponder

end Sync

end Mama
