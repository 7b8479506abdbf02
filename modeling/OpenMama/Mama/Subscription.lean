import Mathlib.Data.List.Basic
import OpenMama.Lib.Runs

/-!
# The life of a subscription

The calls on a subscription, the action that the throttle runs for it and the callback of its
bridge move it between its states, each in a section under `mCreateDestroyLock`.  What a call
has yet to do outside of such a section is a part that is pending, and so is a callback that
the bridge owes.  A step is one section, or the start of a call, or a part.

While an action runs the throttle's list is locked, and `deactivate` locks it before the
subscription.
-/

namespace Mama.Lifecycle

/-- `mamaSubscriptionState`. -/
inductive State
  | allocated
  | setup
  | activating
  | activated
  | deactivating
  | deactivated
  | reactivating
  | destroying
  | destroyed
  | deallocating
  | deallocated
  deriving DecidableEq, Repr

/-- The values of `mama_status` that are returned. -/
inductive Status
  | ok
  | nomem
  | invalidArg
  | invalidQueue
  | noBridgeImpl
  | notEntitled
  | platform
  | subscriptionInvalidType
  | subscriptionInvalidState
  | queueOpenObjects
  deriving DecidableEq, Repr

/-- `mamaSubscriptionType`. -/
inductive SubscriptionType
  | unknown
  | normal
  | group
  | book
  | basic
  | dictionary
  | symbolList
  | symbolListNormal
  | symbolListGroup
  | symbolListBook
  deriving DecidableEq, Repr

/-- `mamaServiceLevel`. -/
inductive ServiceLevel
  | unknown
  | realTime
  | snapshot
  | conflated
  deriving DecidableEq, Repr

/-- The values of `mamaSubscMsgType` that a subscription is given. -/
inductive SubscMsgType
  | subscribe
  | snapshot
  | ddictSnapshot
  deriving DecidableEq, Repr

def SubscMsgType.isSnapshot : SubscMsgType → Bool
  | .subscribe => false
  | .snapshot | .ddictSnapshot => true

/-! ## The queue -/

/-- `mamaQueueImpl`. -/
structure Queue where
  mNumberOpenObjects : Int := 0
  deriving DecidableEq, Repr

/-- `mamaQueue_incrementObjectCount`. -/
def Queue.incrementObjectCount (q : Queue) : Queue :=
  { q with mNumberOpenObjects := q.mNumberOpenObjects + 1 }

/-- `mamaQueue_decrementObjectCount`. -/
def Queue.decrementObjectCount (q : Queue) : Queue :=
  { q with mNumberOpenObjects := q.mNumberOpenObjects - 1 }

/-- `mamaQueue_canDestroy`. -/
def Queue.canDestroy (q : Queue) : Status :=
  if q.mNumberOpenObjects = 0 then .ok else .queueOpenObjects

/-! ## The subscription -/

inductive Part
  /-- `deactivate` past its reads of the type and the transport, with the throttle locked, on
  its own or for `destroy`. -/
  | deactivate (basic : Bool) (throttle : Option Nat) (destroys : Bool)
  /-- `destroy` past its `deactivate`. -/
  | destroy
  /-- `onCreate`, of an action that a throttle runs or of `createBasic`. -/
  | onCreate (throttle : Option Nat)
  /-- The unlocking after `onCreate` of an action that was run at once. -/
  | unlock
  /-- `invokeDestroyedCallback` for a set-up. -/
  | onDestroy (setUp : Nat)
  | bridgeDestroyed
  /-- `onSubscriptionDestroyed` past its decrement. -/
  | onSubscriptionDestroyed
  /-- `onSubscriptionDestroyed` of a subscription that is deallocated, past its clean-up and
  past `onDestroy`. -/
  | onDestroyDeallocate (setUp : Nat)
  | deallocate
  deriving DecidableEq, Repr

def Part.holds (throttle : Nat) : Part → Bool
  | .deactivate _ t _ | .onCreate t => t == some throttle
  | _ => false

/-- `mamaSubscriptionImpl`.  A throttle is named by its transport, and callbacks by the set-up
that registered them. -/
structure SubscriptionImpl where
  mState : State := .allocated
  mType : SubscriptionType := .normal
  mSubscMsgType : SubscMsgType := .subscribe
  mTransport : Option Nat := none
  mQueue : Queue := {}
  mSubscBridge : Bool := false
  mAction : Option Nat := none
  mUserCallbacks : Nat := 0
  /-- The throttles that hold a create action of the subscription. -/
  actions : List Nat := []
  pending : List Part := []
  /-- The set-ups that registered callbacks, those that succeeded and those cleaned up. -/
  setUps : Nat := 0
  succeeded : List Nat := []
  cleaned : List Nat := []
  /-- The set-ups whose `onDestroy` was invoked. -/
  destroyed : List Nat := []
  /-- What each `deactivate` returned, and the state that it left. -/
  deactivations : List (Status × State) := []
  /-- Activated, and not deactivated, destroyed or deallocated since. -/
  initialised : Bool := false
  /-- The inboxes and the reply timers of its image requests that the queue counts. -/
  requestObjects : Nat := 0
  accessed : Bool := false
  deriving DecidableEq, Repr

/-- What the transport, its throttle and its bridge do. -/
inductive Dispatch
  | noBridgeImpl
  | nomem
  | queued
  | immediate
  deriving DecidableEq, Repr

structure Environment where
  dispatch : Dispatch := .queued
  /-- `mamaTransport_addSubscription` succeeds. -/
  added : Bool := true
  /-- `bridgeMamaSubscriptionCreate` makes a bridge subscription. -/
  created : Bool := true
  /-- `bridgeMamaSubscriptionDestroy` calls back before it returns. -/
  callsBack : Bool := false
  deriving DecidableEq, Repr

variable (env : Environment) (s : SubscriptionImpl)

/-- `mamaSubscriptionImpl_setState`. -/
def setState (state : State) : SubscriptionImpl :=
  { s with
    mState := state
    initialised := match state with
      | .activated => true
      | .deactivated | .destroyed | .deallocated => false
      | _ => s.initialised }

section
variable (state : State)

@[simp] theorem setState_mSubscBridge : (setState s state).mSubscBridge = s.mSubscBridge := rfl

end

def isLocked (throttle : Nat) : Bool := s.pending.any (·.holds throttle)

def register : SubscriptionImpl :=
  { s with mUserCallbacks := s.setUps, setUps := s.setUps + 1 }

/-- `imageRequest_create`, `n` times: each makes an inbox on the queue. -/
def openInboxes (n : Nat) : SubscriptionImpl :=
  { s with
    mQueue := { s.mQueue with mNumberOpenObjects := s.mQueue.mNumberOpenObjects + n }
    requestObjects := s.requestObjects + n }

/-! ## Setting up -/

/-- The arguments of a set-up, with the properties that the subscription was given before. -/
structure SetUp where
  mType : SubscriptionType := .normal
  mServiceLevel : ServiceLevel := .realTime
  mRequiresInitial : Bool := true
  transport : Nat := 0
  /-- What fails before the properties are looked at: the source, the bridge, entitlements. -/
  before : Option Status := none
  /-- What fails when the callbacks are registered: the publisher, the listener, the
  strategy; that of an image request is `ok`. -/
  after : Option Status := none
  /-- How many of the two image requests are created before that. -/
  requests : Nat := 0
  deriving DecidableEq, Repr

/-- The message type that `mamaSubscription_setupBasic` finds, if it supports the properties. -/
def SetUp.subscMsgType (a : SetUp) : Option SubscMsgType := do
  let subscMsgType ← match a.mServiceLevel with
    | .realTime => some SubscMsgType.subscribe
    | .snapshot => if a.mRequiresInitial then some .snapshot else none
    | .conflated | .unknown => none
  match a.mType with
    | .dictionary => some .ddictSnapshot
    | .basic | .unknown => none
    | _ => some subscMsgType

/-- `mamaSubscription_setupBasic`. -/
def setupBasic (a : SetUp) : Status × SubscriptionImpl :=
  match a.before, a.subscMsgType with
  | some status, _ => (status, s)
  | none, none => (.invalidArg, s)
  | none, some subscMsgType =>
    let s := register { s with mTransport := some a.transport, mSubscMsgType := subscMsgType }
    match a.after with
    | some status => (status, openInboxes s (min a.requests 2))
    | none =>
      (.ok, setState { openInboxes s 2 with succeeded := s.succeeded ++ [s.mUserCallbacks] } .setup)

/-- `mamaSubscription_setup` and `mamaSubscription_setup2`. -/
def setup (a : SetUp) : Status × SubscriptionImpl :=
  if s.mState = .allocated ∨ s.mState = .destroyed then
    setupBasic { s with mType := a.mType } a
  else
    (.subscriptionInvalidState, s)

/-! ## Activation -/

/-- `mamaSubscription_initialize`. -/
def initializeSubscription : SubscriptionImpl :=
  let s := if !s.mSubscMsgType.isSnapshot && env.created then { s with mSubscBridge := true } else s
  { s with mQueue := s.mQueue.incrementObjectCount }

/-- The section of `mamaSubscriptionImpl_completeMarketDataInitialisation`. -/
def completeMarketDataInitialisation : SubscriptionImpl :=
  let s := { s with mAction := none }
  if s.mState = .activating ∧ (s.mSubscMsgType.isSnapshot || env.added) then
    setState (initializeSubscription env s) .activated
  else
    s

/-- `mamaSubscription_activate_internal`; without a result it waits for the throttle. -/
def activateInternal : Option (Status × SubscriptionImpl) :=
  match s.mTransport, env.dispatch with
  | none, _ => some (.invalidArg, s)
  | some _, .noBridgeImpl => some (.noBridgeImpl, s)
  | some _, .immediate =>
    let s := completeMarketDataInitialisation env s
    some (.ok, { s with pending := .unlock :: s.pending })
  | some throttle, .nomem => if isLocked s throttle then none else some (.nomem, s)
  | some throttle, .queued =>
    if isLocked s throttle then none
    else some (.ok, { s with actions := throttle :: s.actions, mAction := some throttle })

/-- `mamaSubscription_activate`. -/
def activate : Option (Status × SubscriptionImpl) :=
  if s.mType = .basic then
    some (.subscriptionInvalidType, s)
  else
    match s.mState with
    | .deactivated | .setup => activateInternal env (setState s .activating)
    | .activated | .activating | .reactivating => some (.ok, s)
    | .deactivating => some (.ok, setState s .reactivating)
    | _ => some (.subscriptionInvalidState, s)

/-- What `mamaSubscriptionImpl_createBasic` is given and finds. -/
structure CreateBasic where
  transport : Nat := 0
  bridgeImpl : Bool := true
  status : Status := .ok
  deriving DecidableEq, Repr

/-- `mamaSubscriptionImpl_completeBasicInitialisation`. -/
def completeBasicInitialisation (status : Status) : Status × SubscriptionImpl :=
  if s.mState = .activating then
    if status = .ok then
      (.ok, setState { s with
        mSubscBridge := true
        mQueue := s.mQueue.incrementObjectCount } .activated)
    else
      (status, s)
  else
    (.subscriptionInvalidState, s)

/-- `mamaSubscriptionImpl_createBasic`; the callbacks of a wild card are registered before. -/
def createBasic (a : CreateBasic) (wildCard : Bool) : Status × SubscriptionImpl :=
  if s.mState = .allocated ∨ s.mState = .destroyed then
    if a.bridgeImpl then
      let s := { s with mTransport := some a.transport, mType := .basic }
      let s := if wildCard then s else register s
      let (status, s) := completeBasicInitialisation (setState s .activating) a.status
      (status, if status = .ok then { s with pending := .onCreate none :: s.pending } else s)
    else
      (.noBridgeImpl, s)
  else
    (.subscriptionInvalidState, s)

/-- `mamaSubscription_createBasicWildCard`. -/
def createBasicWildCard (a : CreateBasic) : Status × SubscriptionImpl :=
  createBasic (register s) a true

/-! ## Destruction -/

/-- `mamaSubscription_cleanup`. -/
def cleanup : SubscriptionImpl :=
  { s with mTransport := none, cleaned := s.cleaned ++ [s.mUserCallbacks] }

/-- `mamaSubscriptionImpl_invokeDestroyedCallback`. -/
def invokeDestroyedCallback : SubscriptionImpl :=
  { s with destroyed := s.destroyed ++ [s.mUserCallbacks] }

/-- `mamaSubscriptionImpl_deallocate`. -/
def deallocateImpl : SubscriptionImpl := setState s .deallocated

/-- The section of `mamaSubscriptionImpl_onSubscriptionDestroyed`. -/
def onSubscriptionDestroyed : Option SubscriptionImpl :=
  match s.mState with
  | .deactivating => some (setState s .deactivated)
  | .deallocating =>
    some { cleanup s with pending := .onDestroyDeallocate s.mUserCallbacks :: s.pending }
  | .destroying =>
    some { setState (cleanup s) .destroyed with
      pending := .onDestroy s.mUserCallbacks :: s.pending }
  | .reactivating => (activate env (setState s .deactivated)).map Prod.snd
  | _ => some s

/-- `mamaSubscription_deactivate_internal`, with the bridge's destroy. -/
def deactivateInternal : Option SubscriptionImpl :=
  if s.mSubscBridge then
    if env.callsBack then do
      let s ← onSubscriptionDestroyed env { s with mQueue := s.mQueue.decrementObjectCount }
      some { s with mSubscBridge := false }
    else
      some { s with mSubscBridge := false, pending := .bridgeDestroyed :: s.pending }
  else
    some s

/-- `wombatThrottle_removeAction` by the handle; without a throttle or a handle it follows a
null pointer. -/
def removeAction (throttle : Option Nat) : Option SubscriptionImpl :=
  match throttle, s.mAction with
  | some _, some action => some { s with actions := s.actions.erase action }
  | _, _ => none

/-- `mamaSubscription_deactivate` up to its lock. -/
def deactivateBegin (destroys : Bool) : Option SubscriptionImpl :=
  let basic := decide (s.mType = .basic)
  let throttle := if basic then none else s.mTransport
  if throttle.any (isLocked s) then none
  else some { s with pending := .deactivate basic throttle destroys :: s.pending }

/-- The section of `mamaSubscription_deactivate`. -/
def deactivate (basic : Bool) (throttle : Option Nat) : Option (Status × SubscriptionImpl) :=
  if basic then
    match s.mState with
    | .activated => do
      let s ← deactivateInternal env (setState s .deactivating)
      some (.ok, s)
    | .deactivating | .deactivated => some (.ok, s)
    | _ => some (.subscriptionInvalidState, s)
  else
    match s.mState with
    | .activating => do
      let s ← removeAction s throttle
      some (.ok, setState { s with mAction := none } .deactivated)
    -- the status is still the one from before the switch
    | .reactivating => some (.subscriptionInvalidType, setState s .deactivating)
    | .activated => do
      let s ← deactivateInternal env (setState s .deactivating)
      some (.ok, if s.mSubscMsgType.isSnapshot then setState s .deactivated else s)
    | .deactivating | .deactivated => some (.ok, s)
    | _ => some (.subscriptionInvalidState, s)

/-- The section of `mamaSubscription_destroy` that follows its `deactivate`. -/
def destroy : Status × SubscriptionImpl :=
  match s.mState with
  | .setup | .deactivated =>
    (.ok, { setState (cleanup s) .destroyed with
      pending := .onDestroy s.mUserCallbacks :: s.pending })
  | .deactivating => (.ok, setState s .destroying)
  | .destroying | .destroyed | .allocated => (.ok, s)
  | _ => (.subscriptionInvalidState, s)

/-- `mamaSubscription_deallocate`. -/
def deallocate : Status × SubscriptionImpl :=
  match s.mState with
  | .destroying => (.ok, setState s .deallocating)
  | .allocated | .destroyed => (.ok, deallocateImpl s)
  | _ => (.subscriptionInvalidState, s)

/-! ## Steps -/

inductive Event
  | setup (a : SetUp)
  | createBasic (a : CreateBasic)
  | createBasicWildCard (a : CreateBasic)
  | activate
  | deactivate
  | destroy
  | deallocate
  | createAction (throttle : Nat)
  | part (p : Part)
  deriving DecidableEq, Repr

structure Label where
  event : Event
  env : Environment := {}
  deriving DecidableEq, Repr

def Part.run : Part → Option SubscriptionImpl
  | .deactivate basic throttle destroys => do
    let (status, s) ← Lifecycle.deactivate env s basic throttle
    let s := { s with deactivations := s.deactivations ++ [(status, s.mState)] }
    some (if destroys then { s with pending := .destroy :: s.pending } else s)
  | .destroy => some (Lifecycle.destroy s).2
  | .onCreate _ | .unlock => some s
  | .onDestroy _ => some (invokeDestroyedCallback s)
  | .bridgeDestroyed =>
    some { s with
      mQueue := s.mQueue.decrementObjectCount
      pending := .onSubscriptionDestroyed :: s.pending }
  | .onSubscriptionDestroyed => Lifecycle.onSubscriptionDestroyed env s
  | .onDestroyDeallocate _ =>
    some { invokeDestroyedCallback s with pending := .deallocate :: s.pending }
  | .deallocate => some (deallocateImpl s)

/-- What is accessed by `run`, which is not done any more after the deallocation. -/
def access (run : SubscriptionImpl → Option SubscriptionImpl) : Option SubscriptionImpl :=
  if s.mState = .deallocated then some { s with accessed := true } else run s

/-- A call is only begun on a subscription that is not deallocated. -/
def call (run : SubscriptionImpl → Option SubscriptionImpl) : Option SubscriptionImpl :=
  if s.mState = .deallocated then none else run s

def step (l : Label) : Option SubscriptionImpl :=
  match l.event with
  | .setup a => call s fun s => some (setup s a).2
  | .createBasic a => call s fun s => some (createBasic s a false).2
  | .createBasicWildCard a => call s fun s => some (createBasicWildCard s a).2
  | .activate => call s fun s => (activate l.env s).map Prod.snd
  | .deactivate => call s fun s => deactivateBegin s false
  | .destroy => call s fun s => deactivateBegin s true
  | .deallocate => call s fun s => some (deallocate s).2
  | .createAction throttle =>
    if throttle ∈ s.actions ∧ ¬ isLocked s throttle then
      access { s with actions := s.actions.erase throttle } fun s =>
        let s := completeMarketDataInitialisation l.env s
        some { s with pending := .onCreate (some throttle) :: s.pending }
    else
      none
  | .part p =>
    if p ∈ s.pending then access { s with pending := s.pending.erase p } (p.run l.env)
    else none

/-- `mamaSubscription_allocate`. -/
def create : SubscriptionImpl := {}

end Mama.Lifecycle
