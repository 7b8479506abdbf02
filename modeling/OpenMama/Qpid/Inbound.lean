import OpenMama.Qpid.EndpointPool
import OpenMama.Qpid.MessagePool

/-!
# Inbound messages of the qpid bridge

The dispatch thread takes a node of the pool for each message that comes in, looks up who is
registered for its subject, and hands a node to the queue of each subscription that is not muted:
the last one gets the node of the message itself, the others get copies.  A queue calls back with
its nodes in turn; the callback unpacks the message of the node, lets the subscription process it,
and gives the node back.

Threads take turns at the steps below.  Memory that was freed is not read: where the code does, the
step is `none`, as it is where a null string is copied.  Queues take every event, and memory does
not run out.
-/

namespace Mama

namespace Qpid

/-! ## Unpacking -/

/-- What the payload of a message points to: a proton message, or bytes that were copied. -/
inductive Buffer
  | protonMessage (node : Nat)
  | bytes (b : List UInt8)

/-- The message that a queue keeps for its callbacks, with its bridge message. -/
structure MamaMsg where
  mPayload : Option Buffer
  mMsgType : MsgType
  mInboxName : List UInt8
  mReplyTo : List UInt8
  mTargetSubject : List UInt8

def MamaMsg.new : MamaMsg := ⟨none, .pubSub, [], [], []⟩

/-- `QPID_MSG_PROPERTY_LEN`. -/
def propertyLen : Nat := 1024

/-- `qpidBridgeMamaMsgImpl_setStringValue`: what is stored, and whether it is all of the value. -/
def setStringValue (value : List UInt8) : List UInt8 × Bool :=
  let value := value.takeWhile (· ≠ 0)
  if value.length < propertyLen then (value, true) else (value.take (propertyLen - 1), false)

/-- `pn_data_get_string`; the start is null for anything else. -/
def Atom.getString {F : Type} : Option (Atom F) → Option (List UInt8)
  | some (.string s) => some s
  | _ => none

/-- `pn_data_next` from the entry with this index: the cursor stays at the last one. -/
def nextIndex {F : Type} (properties : List (Atom F)) (i : Nat) : Nat :=
  if i + 1 < properties.length then i + 1 else i

variable {K F : Type}

/-- The properties, in `qpidBridgeMsgCodec_unpack`.  The result tells `MAMA_STATUS_OK`. -/
def unpackProperties (target : MamaMsg) (m : PnMessage K F) : Option (MamaMsg × Bool) :=
  let target := { target with mMsgType := m.msgType }
  let first := nextIndex m.properties 0
  match m.msgType with
  | .inboxRequest => do
    let inboxName ← Atom.getString (m.properties[first]?)
    let (value, ok) := setStringValue inboxName
    let target := { target with mInboxName := value }
    if ok then do
      let replyTo ← Atom.getString (m.properties[nextIndex m.properties first]?)
      let (value, ok) := setStringValue replyTo
      some ({ target with mReplyTo := value }, ok)
    else some (target, false)
  | .inboxResponse => do
    let targetSubject ← Atom.getString (m.properties[first]?)
    let (value, ok) := setStringValue targetSubject
    some ({ target with mTargetSubject := value }, ok)
  | _ => some (target, true)

/-- `qpidBridgeMsgCodec_unpack` of the message of a node.  `accepts` tells whether a payload library
takes the bytes; what the message holds after it did not is not known. -/
def unpack (accepts : List UInt8 → Bool) (target : MamaMsg) (node : Nat) (m : PnMessage K F) :
    Option (MamaMsg × Bool) :=
  match m.body with
  | .list _ => unpackProperties { target with mPayload := some (.protonMessage node) } m
  | .binary bytes =>
    if bytes = [] then some (target, false)
    else if accepts bytes then unpackProperties { target with mPayload := some (.bytes bytes) } m
    else some ({ target with mPayload := none }, false)
  | _ => unpackProperties target m -- only logged

/-! ## What is processed -/

inductive Payload (F : Type)
  | fields (f : F)
  | bytes (b : List UInt8)
  deriving DecidableEq

inductive Metadata
  | plain (type : MsgType)
  | request (inboxName replyTo : List UInt8)
  | response (targetSubject : List UInt8)
  deriving DecidableEq

/-- What a subscription finds in a message that it processes. -/
structure Received (F : Type) where
  payload : Option (Payload F)
  metadata : Metadata
  deriving DecidableEq

def Buffer.read (nodes : Nat → MsgNode K F) : Buffer → Option (Payload F)
  | .protonMessage node =>
    match (nodes node).mMsg.body with
    | .list f => some (.fields f)
    | _ => none
  | .bytes b => some (.bytes b)

def MamaMsg.received (nodes : Nat → MsgNode K F) (m : MamaMsg) : Received F where
  payload := m.mPayload.bind (Buffer.read nodes)
  metadata := match m.mMsgType with
    | .inboxRequest => .request m.mInboxName m.mReplyTo
    | .inboxResponse => .response m.mTargetSubject
    | type => .plain type

/-! ## The bridge -/

/-- `qpidSubscription`; its native queue is that of its `mamaQueue`. -/
structure QpidSubscription (K : Type) where
  mMamaQueue : Nat
  mSubjectKey : K
  mEndpointIdentifier : K
  mIsNotMuted : Bool
  mIsTportDisconnected : Bool

/-- Where the dispatch thread is: at the messenger, or in the loop over the subscriptions. -/
inductive DispatchThread (K : Type)
  | receiving
  | fanning (msgNode : Nat) (subs : EndpointPool.Registered K Nat) (subInc : Nat)
  | returned

/-- `qpidTransportBridge` with the subscriptions, and with the closures and the message of each
queue. -/
structure TransportBridge (K F : Type) where
  mQpidMsgPool : MsgPool K F
  mSubEndpoints : EndpointPool K Nat
  /-- The subscriptions that are there; they get the addresses from 0 on. -/
  subscriptions : Nat → Option (QpidSubscription K)
  created : Nat
  queues : Nat → List Nat
  mMsgs : Nat → MamaMsg
  thread : DispatchThread K

/-- The settings of a transport, and its surroundings.  `%p` prints different pointers
differently. -/
structure Settings (K : Type) where
  platform : Platform K Nat
  printed_injective : Function.Injective platform.printed
  poolSize : Nat
  two_le_poolSize : 2 ≤ poolSize
  mQpidMsgPoolIncSize : Nat
  one_le_incSize : 1 ≤ mQpidMsgPoolIncSize
  /-- Whether a payload library takes the bytes of a message. -/
  accepts : List UInt8 → Bool

inductive Step (K F : Type)
  | create (subject : K) (queue : Nat)
  | mute (sub : Nat)
  | destroy (sub : Nat)
  | receive (m : PnMessage K F)
  | receiveFailed
  | fanOut
  | callback (queue : Nat)

namespace TransportBridge

variable [DecidableEq K]

def create (q : Settings K) : Option (TransportBridge K F) := do
  let pool ← MsgPool.createMessagePool q.poolSize
  some {
    mQpidMsgPool := pool
    mSubEndpoints := .create
    subscriptions := fun _ => none
    created := 0
    queues := fun _ => []
    mMsgs := fun _ => .new
    thread := .receiving }

/-- `qpidBridgeMamaSubscription_create`. -/
def createSubscription (q : Settings K) (b : TransportBridge K F) (subject : K) (queue : Nat) :
    Option (TransportBridge K F) := do
  let impl := b.created
  let identifier := q.platform.printed impl
  let (endpoints, _) ← b.mSubEndpoints.registerWithoutIdentifier q.platform.hash q.platform.printed
    subject (some impl)
  some { b with
    mSubEndpoints := endpoints
    subscriptions := Function.update b.subscriptions impl
      (some ⟨queue, subject, identifier, true, true⟩)
    created := b.created + 1 }

/-- `qpidBridgeMamaSubscription_mute`, of a subscription that is there. -/
def mute (b : TransportBridge K F) (sub : Nat) : TransportBridge K F :=
  { b with
    subscriptions := Function.update b.subscriptions sub
      ((b.subscriptions sub).map fun s => { s with mIsNotMuted := false }) }

/-- `qpidBridgeMamaSubscription_destroy`, of a subscription that is there. -/
def destroy (q : Settings K) (b : TransportBridge K F) (sub : Nat) :
    Option (TransportBridge K F) :=
  match b.subscriptions sub with
  | none => some b
  | some impl => do
    let endpoints ← b.mSubEndpoints.unregister q.platform.hash impl.mSubjectKey
      impl.mEndpointIdentifier
    some { b with
      mSubEndpoints := endpoints
      subscriptions := Function.update b.subscriptions sub none }

/-- The dispatch thread gives the node back and goes on. -/
def discard (b : TransportBridge K F) (msgNode : Nat) (thread : DispatchThread K) :
    TransportBridge K F :=
  { b with mQpidMsgPool := (b.mQpidMsgPool.releasePoolMsg msgNode).1, thread }

/-- `qpidBridgeMamaTransportImpl_dispatchThread`, from a message to the loop over the
subscriptions.  The topics of subscription requests go into another endpoint pool. -/
def receive (q : Settings K) (b : TransportBridge K F) (m : PnMessage K F) :
    Option (TransportBridge K F) := do
  let (pool, msgNode) ← b.mQpidMsgPool.getPoolMsg q.mQpidMsgPoolIncSize
  let pool := (pool.setMsg msgNode m).setMsgType msgNode m.msgType
  let b := { b with mQpidMsgPool := pool }
  match m.msgType with
  | .terminate => some (b.discard msgNode .returned)
  | .subRequest => some (b.discard msgNode .receiving)
  | _ =>
    match m.subject with
    | none => some (b.discard msgNode .receiving)
    | some subject => do
      let (endpoints, subs) ← b.mSubEndpoints.getRegistered q.platform.hash q.platform.wide
        q.platform.word subject
      let b := { b with mSubEndpoints := endpoints }
      if subs.count = 0 then some (b.discard msgNode .receiving)
      else some { b with thread := .fanning msgNode subs 0 }

/-- `pn_messenger_get` fails: the thread returns. -/
def receiveFailed (q : Settings K) (b : TransportBridge K F) : Option (TransportBridge K F) := do
  let (pool, _) ← b.mQpidMsgPool.getPoolMsg q.mQpidMsgPoolIncSize
  some { b with mQpidMsgPool := pool, thread := .returned }

/-- `qpidBridgeMamaQueue_enqueueEvent`. -/
def enqueueEvent (b : TransportBridge K F) (queue node : Nat) : TransportBridge K F :=
  { b with queues := Function.update b.queues queue (b.queues queue ++ [node]) }

def copyNode (p : MsgPool K F) (msgNode tmpMsgNode sub : Nat) : MsgPool K F :=
  p.modify tmpMsgNode fun node =>
    { node with
      mMsgType := (p.nodes msgNode).mMsgType
      mQpidSubscription := some sub
      mMsg := { node.mMsg with
        body := (p.nodes msgNode).mMsg.body
        properties := (p.nodes msgNode).mMsg.properties } }

/-- The body of the loop over the subscriptions, for one of them. -/
def fanOutTo (q : Settings K) (b : TransportBridge K F) (msgNode sub : Nat) (isLast : Bool) :
    Option (TransportBridge K F) := do
  let subscription ← b.subscriptions sub
  let b := { b with
    subscriptions := Function.update b.subscriptions sub
      (some { subscription with mIsTportDisconnected := false }) }
  if ¬ subscription.mIsNotMuted then some b
  else if ¬ isLast then do
    let (pool, tmpMsgNode) ← b.mQpidMsgPool.getPoolMsg q.mQpidMsgPoolIncSize
    let b := { b with mQpidMsgPool := copyNode pool msgNode tmpMsgNode sub }
    some (b.enqueueEvent subscription.mMamaQueue tmpMsgNode)
  else
    let b := { b with mQpidMsgPool := b.mQpidMsgPool.setSubscription msgNode sub }
    some (b.enqueueEvent subscription.mMamaQueue msgNode)

def fanOut (q : Settings K) (b : TransportBridge K F) (msgNode : Nat)
    (subs : EndpointPool.Registered K Nat) (subInc : Nat) : Option (TransportBridge K F) :=
  match subs.endpoints.bind fun buffer => buffer subInc with
  | some (.closure sub) => do
    let b ← b.fanOutTo q msgNode sub (subInc = subs.count - 1)
    some { b with
      thread := if subInc + 1 < subs.count then .fanning msgNode subs (subInc + 1) else .receiving }
  | _ => none

/-- `endpointPool_isRegistedByContent`, with a subject that may be null. -/
def isRegisted (q : Settings K) (b : TransportBridge K F) (subject : Option K) (sub : Nat) :
    Option Int :=
  match subject with
  | none => some 5 -- `MAMA_STATUS_NULL_ARG`
  | some subject =>
    b.mSubEndpoints.isRegistedByContent q.platform.hash q.platform.wide subject (some sub)

/-- `qpidBridgeMamaTransportImpl_queueCallback`, with what is processed and by whom. -/
def queueCallback (q : Settings K) (b : TransportBridge K F) (node : Nat) :
    Option (TransportBridge K F × Option (Nat × Received F)) :=
  let m := (b.mQpidMsgPool.nodes node).mMsg
  match (b.mQpidMsgPool.nodes node).mQpidSubscription with
  | none => some (b, none)
  | some sub => do
    let isRegisted ← b.isRegisted q m.subject sub
    if isRegisted = 0 then some (b, none)
    else do
      let subscription ← b.subscriptions sub
      if ¬ subscription.mIsNotMuted then some (b, none)
      else do
        let (tmpMsg, ok) ← unpack q.accepts (b.mMsgs subscription.mMamaQueue) node m
        let processed := if ok then some (sub, tmpMsg.received b.mQpidMsgPool.nodes) else none
        let b := { b with
          mMsgs := Function.update b.mMsgs subscription.mMamaQueue tmpMsg
          mQpidMsgPool := (b.mQpidMsgPool.releasePoolMsg node).1 }
        some (b, processed)

/-- A step, with what is processed in it.  Where it is not the turn of a thread, nothing happens. -/
def step (q : Settings K) (b : TransportBridge K F) :
    Step K F → Option (TransportBridge K F × Option (Nat × Received F))
  | .create subject queue => do
    let b ← b.createSubscription q subject queue
    some (b, none)
  | .mute sub => some (b.mute sub, none)
  | .destroy sub => do
    let b ← b.destroy q sub
    some (b, none)
  | .receive m =>
    match b.thread with
    | .receiving => do
      let b ← b.receive q m
      some (b, none)
    | _ => some (b, none)
  | .receiveFailed =>
    match b.thread with
    | .receiving => do
      let b ← b.receiveFailed q
      some (b, none)
    | _ => some (b, none)
  | .fanOut =>
    match b.thread with
    | .fanning msgNode subs subInc => do
      let b ← b.fanOut q msgNode subs subInc
      some (b, none)
    | _ => some (b, none)
  | .callback queue =>
    match b.queues queue with
    | [] => some (b, none)
    | node :: rest => { b with queues := Function.update b.queues queue rest }.queueCallback q node

end TransportBridge

end Qpid

end Mama
