import Mathlib.Data.Rat.Floor
import OpenMama.Common.WList

/-!
# The throttle

Actions that are dispatched faster than the rate allows wait in a list, and the callback of
a timer runs some of them every interval.  The list lock is held over an enqueuing and over
the action that runs; the timer is created under it and destroyed by the callback without
it.  A step is what happens between two of these points: the steps of the callback, the two
parts of an enqueuing, and the calls that take actions off the list.  While an action runs
these calls are its own.
-/

namespace Mama.WombatThrottle

open Common.WList (ListImpl Node Link)

/-- `MsgProperties`; a number stands for `mActionCb` with its closures. -/
structure MsgProperties where
  mOwner : Nat
  action : Nat
  deriving DecidableEq, Repr

/-- A call of `wombatThrottle_dispatch` past its look at the rate. -/
structure Call where
  owner : Nat
  action : Nat
  immediate : Bool
  deriving DecidableEq, Repr

/-- Where `wombatThrottle_timerCB` is. -/
inductive Phase
  | idle
  /-- At the loop for a rate of zero, and in its `sendQueuedMessage`. -/
  | drain
  | drainSend
  | drainRunning (info : Node)
  | size
  | destroyTimer
  /-- At the loop of `dispatchMessagesUntilQuota`, and in its `sendQueuedMessage`. -/
  | quota
  | quotaSend
  | quotaRunning (info : Node)
  deriving DecidableEq, Repr

structure Callback where
  ran : Nat := 0
  /-- The largest `mMessagesPerInterval` since it began. -/
  limit : Nat := 0
  positive : Bool := true
  foundEmpty : Bool := false
  deriving DecidableEq, Repr

/-- `wombatThrottleImpl`, with the calls under way.  The last fields record what happened. -/
structure Throttle where
  mMsgQueue : ListImpl := Common.WList.create
  mRate : ℚ := 0
  mMsgsSentThisInterval : Nat := 0
  mMessagesPerInterval : Nat := 0
  mInterval : ℚ := 1 / 10
  mTimer : Bool := false
  info : Node → MsgProperties := fun _ => ⟨0, 0⟩
  phase : Phase := .idle
  /-- The dispatchers that will take the list lock, and the one that has it, with its element. -/
  arrived : List Call := []
  enqueuing : Option (Call × Option Node) := none
  /-- The removals of an action that are between the list's remove and free. -/
  freeing : List Node := []
  callback : Callback := {}
  callbacks : List Callback := []
  dispatched : Nat := 0
  ran : List Nat := []
  removed : List Nat := []
  refused : List Nat := []

variable (t : Throttle)

/-- `wombatThrottle_setRate`; the product of two doubles is a parameter. -/
def setRate (product : ℚ → ℚ → ℚ) (rate : ℚ) : Throttle :=
  let rate := if rate < 0 then 0 else rate
  let t := { t with mRate := rate }
  let t :=
    if rate = 0 then t
    else if rate < 10 then
      { t with mInterval := 1, mMessagesPerInterval := ⌊rate⌋.toNat }
    else
      let messages := ⌊product rate t.mInterval⌋.toNat
      { t with mMessagesPerInterval := if messages ≤ 0 then 1 else messages }
  { t with callback := { t.callback with
      limit := max t.callback.limit t.mMessagesPerInterval
      positive := t.callback.positive && decide (0 < rate) } }

/-- `WOMBAT_THROTTLE_DEFAULT_RATE`. -/
def defaultRate : ℚ := 1000

/-- `wombatThrottle_allocate`. -/
def create (product : ℚ → ℚ → ℚ) : Throttle := setRate {} product defaultRate

/-! ## Dispatch -/

/-- `wombatThrottle_dispatch` looks at the rate, and runs the action if there is none. -/
def dispatch (owner : Nat) (immediate : Bool) : Throttle :=
  let action := t.dispatched
  let t := { t with dispatched := t.dispatched + 1 }
  if t.mRate ≤ 0 then
    { t with ran := t.ran ++ [action] }
  else
    { t with arrived := t.arrived ++ [⟨owner, action, immediate⟩] }

/-- The list is locked, an element allocated and the timer created. -/
def enqueueBegin (call : Call) : Throttle :=
  let (info, l) := Common.WList.allocateElement t.mMsgQueue
  { t with
    mMsgQueue := l
    arrived := t.arrived.erase call
    mTimer := true
    enqueuing := some (call, info) }

/-- The element is filled in and pushed, and the list is unlocked. -/
def enqueueEnd : Option Throttle :=
  match t.enqueuing with
  | none => none
  | some (call, none) => some { t with enqueuing := none, refused := t.refused ++ [call.action] }
  | some (call, some info) => do
    let l ← if call.immediate then Common.WList.pushFront t.mMsgQueue info
      else Common.WList.pushBack t.mMsgQueue info
    some { t with
      mMsgQueue := l
      info := Function.update t.info info ⟨call.owner, call.action⟩
      enqueuing := none }

/-! ## Removal -/

def isQueued (info : Node) : Bool := (t.mMsgQueue.mPrev info).node.isSome

/-- `list_remove_element`. -/
def removeElement (info : Node) : Option Throttle := do
  let l ← Common.WList.removeElement t.mMsgQueue info
  some { t with
    mMsgQueue := l
    removed := if isQueued t info then t.removed ++ [(t.info info).action] else t.removed }

/-- `list_free_element`. -/
def freeElement (info : Node) : Throttle :=
  { t with mMsgQueue := Common.WList.freeElement t.mMsgQueue info }

def removeMessagesForOwnerCb (owner : Nat) (info : Node) : Option Throttle :=
  if owner = (t.info info).mOwner then do
    let t ← removeElement t info
    some (freeElement t info)
  else
    some t

/-- `wombatThrottle_removeMessagesForOwner`. -/
def removeMessagesForOwner (owner : Nat) : Option Throttle :=
  Common.WList.forEach Throttle.mMsgQueue (removeMessagesForOwnerCb · owner) (t.mMsgQueue.size + 1)
    t
    (t.mMsgQueue.mNext .head)

/-- `wombatThrottle_removeMessagesFromList`, with the handles that the list holds. -/
def removeMessagesFromList (handles : List Nat) : Option Throttle :=
  handles.foldlM (fun t n => do
    let t ← removeElement t (.element n)
    some (freeElement t (.element n))) t

/-! ## The timer callback -/

/-- The front of the list is taken off and its action runs; without one `sendQueuedMessage`
returns zero. -/
def sendQueuedMessage (running : Node → Phase) (empty : Throttle → Throttle) : Option Throttle := do
  let (info, l) ← Common.WList.popFront t.mMsgQueue
  match info with
  | none => some (empty t)
  | some info =>
    some { t with
      mMsgQueue := l
      phase := running info
      ran := t.ran ++ [(t.info info).action]
      callback := { t.callback with ran := t.callback.ran + 1 } }

def finish (foundEmpty : Bool) : Throttle :=
  let callback := { t.callback with foundEmpty := foundEmpty }
  { t with phase := .idle, callback := callback, callbacks := t.callbacks ++ [callback] }

def fire : Option Throttle :=
  if t.mTimer ∧ t.phase = .idle then
    some { t with
      phase := .drain
      callback := { limit := t.mMessagesPerInterval, positive := decide (0 < t.mRate) } }
  else
    none

/-- One step of `wombatThrottle_timerCB`; `sendQueuedMessage` and what follows an action need the
list lock. -/
def timerCB : Option Throttle :=
  match t.phase with
  | .idle => none
  | .drain => some { t with phase := if t.mRate = 0 then .drainSend else .size }
  | .drainSend =>
    if t.enqueuing = none then
      sendQueuedMessage t .drainRunning fun t => { t with phase := .size }
    else
      none
  | .drainRunning info =>
    if t.enqueuing = none then some { freeElement t info with phase := .drain } else none
  | .size =>
    some { t with
      mMsgsSentThisInterval := 0
      phase := if t.mMsgQueue.size = 0 then .destroyTimer else .quota }
  | .destroyTimer => some { t with mTimer := false, phase := .quota }
  | .quota =>
    let t' := { t with mMsgsSentThisInterval := t.mMsgsSentThisInterval + 1 }
    if t.mMsgsSentThisInterval < t.mMessagesPerInterval then some { t' with phase := .quotaSend }
    else some (finish t' false)
  | .quotaSend =>
    if t.enqueuing = none then
      sendQueuedMessage t .quotaRunning fun t => finish t true
    else
      none
  | .quotaRunning info =>
    if t.enqueuing = none then some { freeElement t info with phase := .quota } else none

/-! ## Steps -/

inductive Label
  | dispatch (owner : Nat) (immediate : Bool)
  | enqueueBegin (call : Call)
  | enqueueEnd
  /-- The two parts of `wombatThrottle_removeAction`, with a handle by number. -/
  | removeAction (n : Nat)
  | freeAction (n : Nat)
  | removeMessagesForOwner (owner : Nat)
  | removeMessagesFromList (handles : List Nat)
  | setRate (rate : ℚ)
  | fire
  | timerCB
  deriving DecidableEq

def isHandle (n : Nat) : Bool := n < t.mMsgQueue.allocated

def step (product : ℚ → ℚ → ℚ) (t : Throttle) : Label → Option Throttle
  | .dispatch owner immediate => some (dispatch t owner immediate)
  | .enqueueBegin call =>
    if t.enqueuing = none ∧ call ∈ t.arrived then some (enqueueBegin t call) else none
  | .enqueueEnd => enqueueEnd t
  | .removeAction n =>
    if t.enqueuing = none ∧ isHandle t n then do
      let t ← removeElement t (.element n)
      some { t with freeing := .element n :: t.freeing }
    else
      none
  | .freeAction n =>
    if t.enqueuing = none ∧ .element n ∈ t.freeing then
      let t := freeElement t (.element n)
      some { t with freeing := t.freeing.erase (.element n) }
    else
      none
  | .removeMessagesForOwner owner =>
    if t.enqueuing = none then removeMessagesForOwner t owner else none
  | .removeMessagesFromList handles =>
    if t.enqueuing = none ∧ handles.all (isHandle t) then removeMessagesFromList t handles else none
  | .setRate rate => some (setRate t product rate)
  | .fire => fire t
  | .timerCB => timerCB t

end Mama.WombatThrottle
