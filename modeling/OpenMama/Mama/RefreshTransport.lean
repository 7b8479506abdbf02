import Mathlib.Data.Int.Order.Basic
import Mathlib.Data.List.Basic
import OpenMama.Lib.Runs

/-!
# The refreshes of subscriptions

A transport that has to refresh its subscriptions keeps a `SubscriptionInfo` for each, in the
list of the new ones or in the main list.  Both are in the order of the times of the next
refreshes, so that the callback of the timer looks at their heads only.

Times are in seconds.  The fractions that the source computes with are exact ones here.
-/

namespace Mama.Refresh

/-! ## Constants -/

def MAMA_REFRESHINTERVALMIN : Int := 5

def MAMA_REFRESHINTERVALRAND : Int := 55

def REFRESH_GRANULARITY : Int := 1399

/-! ## The lists -/

structure SubscriptionInfo where
  mNextRefreshTime : Int := 0
  mIsInMainList : Int := 0
  deriving DecidableEq, Repr

/-- `refreshTransportImpl`; elements of the lists are named by their handles. -/
structure RefreshTransport where
  mNewListeners : List Nat := []
  mListeners : List Nat := []
  info : Nat → SubscriptionInfo := fun _ => {}
  /-- How often `time` was called. -/
  calls : Nat := 0
  registered : List Nat := []
  /-- To whom the last callback of the timer sent a refresh. -/
  refreshed : List Nat := []

/-- What `rand` returns, and its limit. -/
structure Draw where
  rand : Int
  RAND_MAX : Int
  deriving DecidableEq, Repr

section

-- `time` is what the calls of `time` return
variable (time : Nat → Nat) (s : RefreshTransport)

def now : Int := time s.calls

/-- `list_push_back` to the main list, with the next refresh due in `after` seconds. -/
def pushMain (handle : Nat) (after : Int) : RefreshTransport :=
  { s with
    mListeners := s.mListeners ++ [handle]
    info := Function.update s.info handle ⟨now time s + after, 1⟩
    calls := s.calls + 1 }

/-- `msgUtils_createRefreshMsg` and `mamaSubscription_sendRefresh`. -/
def sendRefresh (handle : Nat) : RefreshTransport :=
  { s with refreshed := s.refreshed ++ [handle] }

/-- `refreshTransport_allocateSubscInfo`. -/
def allocateSubscInfo (handle : Nat) : RefreshTransport :=
  { s with
    info := Function.update s.info handle {}
    registered := handle :: s.registered }

/-- `refreshTransport_addSubscription`. -/
def addSubscription (handle : Nat) : RefreshTransport :=
  { s with
    mNewListeners := s.mNewListeners ++ [handle]
    info := Function.update s.info handle
      { s.info handle with mNextRefreshTime := now time s + MAMA_REFRESHINTERVALRAND * 60 }
    calls := s.calls + 1 }

/-- `list_remove_element`, from the list that the element is said to be in. -/
def removeElement (handle : Nat) : RefreshTransport :=
  if (s.info handle).mIsInMainList ≠ 0 then
    { s with mListeners := s.mListeners.erase handle }
  else
    { s with mNewListeners := s.mNewListeners.erase handle }

/-- `refreshTransport_removeListener`. -/
def removeListener (handle : Nat) : RefreshTransport :=
  let s := removeElement s handle
  { s with registered := s.registered.erase handle }

/-- `refreshTransport_resetRefreshForListener`. -/
def resetRefreshForListener (handle : Nat) : RefreshTransport :=
  pushMain time (removeElement s handle) handle (MAMA_REFRESHINTERVALRAND * 60 - 1)

/-! ## The callback of the timer -/

def keepsNew (curTime dontRefreshBefore maxMessages sent : Int) (handle : Nat) : Bool :=
  decide (100 * (s.info handle).mNextRefreshTime > 100 * curTime + REFRESH_GRANULARITY ∧
    ((s.info handle).mNextRefreshTime > dontRefreshBefore ∨ sent > maxMessages))

/-- The loop of `processNewSubscriptions`, over what is left of the list. -/
def refreshNew (curTime dontRefreshBefore maxMessages : Int) :
    Int → List Nat → RefreshTransport → RefreshTransport
  | _, [], s => s
  | sent, cur :: rest, s =>
    if keepsNew s curTime dontRefreshBefore maxMessages sent cur then s
    else
      let s := { sendRefresh s cur with mNewListeners := rest }
      refreshNew curTime dontRefreshBefore maxMessages (sent + 1) rest
        (pushMain time s cur (MAMA_REFRESHINTERVALRAND * 60))

/-- How many of the new ones may be sent a refresh before they are due. -/
def maxMessages (draw : Draw) (curTime : Int) (newListenerCount : Nat) (last : Int) : Int :=
  let intervals := (100 * (last - curTime)).tdiv REFRESH_GRANULARITY
  let intervals := if intervals = 0 then 1 else intervals
  let messagesPerInterval := (newListenerCount : Int).tdiv intervals
  (2 * (draw.RAND_MAX + draw.rand * messagesPerInterval)).tdiv draw.RAND_MAX

/-- `refreshTransportImpl_processNewSubscriptions`. -/
def processNewSubscriptions (draw : Draw) : RefreshTransport :=
  let curTime := now time s
  let dontRefreshBefore := curTime + (MAMA_REFRESHINTERVALRAND - MAMA_REFRESHINTERVALMIN) * 60
  let s := { s with calls := s.calls + 1 }
  match s.mNewListeners with
  | [] => s
  | cur :: rest =>
    if (s.info cur).mNextRefreshTime > dontRefreshBefore then s
    else
      let last := (s.info ((cur :: rest).getLast (List.cons_ne_nil cur rest))).mNextRefreshTime
      let maxMessages := maxMessages draw curTime (cur :: rest).length last
      refreshNew time curTime dontRefreshBefore maxMessages 0 (cur :: rest) s

/-- The loop of `doRefresh`; it has no result if it takes more turns than there is fuel. -/
def refreshDue (refreshUntil : Int) : Nat → RefreshTransport → Option RefreshTransport
  | 0, _ => none
  | fuel + 1, s =>
    match s.mListeners with
    | [] => some s
    | cur :: rest =>
      if (s.info cur).mNextRefreshTime > refreshUntil then some s
      else
        let s := { sendRefresh s cur with mListeners := rest }
        refreshDue refreshUntil fuel (pushMain time s cur (MAMA_REFRESHINTERVALRAND * 60))

/-- `refreshTransportImpl_doRefresh`. -/
def doRefresh (draw : Draw) (fuel : Nat) : Option RefreshTransport :=
  let curTime := now time s
  -- truncated to whole seconds
  let refreshUntil := (100 * curTime + REFRESH_GRANULARITY).tdiv 100
  let s := { s with calls := s.calls + 1, refreshed := [] }
  refreshDue time refreshUntil fuel (processNewSubscriptions time s draw)

/-! ## Steps -/

inductive Event
  /-- With a new `SubscriptionInfo`. -/
  | addSubscription (handle : Nat)
  | resetRefreshForListener (handle : Nat)
  | removeListener (handle : Nat)
  | timerCallback (draw : Draw) (fuel : Nat)
  deriving DecidableEq, Repr

/-- A handle is only allocated once, and only used while it is registered. -/
def step : Event → Option RefreshTransport
  | .addSubscription handle =>
    if handle ∈ s.registered then none
    else some (addSubscription time (allocateSubscInfo s handle) handle)
  | .resetRefreshForListener handle =>
    if handle ∈ s.registered then some (resetRefreshForListener time s handle) else none
  | .removeListener handle => if handle ∈ s.registered then some (removeListener s handle) else none
  | .timerCallback draw fuel => doRefresh time s draw fuel

end

/-- `refreshTransport_create`. -/
def create : RefreshTransport := {}

end Mama.Refresh
