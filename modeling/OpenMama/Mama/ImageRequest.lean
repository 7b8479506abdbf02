import OpenMama.Common.DestroyHandle
import OpenMama.Mama.Throttle

/-!
# Image requests

Image requests are sent through a throttle that they share.  A request waits for its response; a
reply timer sends it again or gives up.  Any number of requests work at the same time.

A step is what a call does under its locks, or what it does before it takes them: setting a request
up and dispatching it are two steps, and so are looking at a timeout and acting on it.  The
callbacks of one request are dispatched by one thread.  What the subscription does is an input:
whether an initial value was received, and whether a message ends the wait.
-/

namespace Mama.ImageRequest

open Option

open Common.Handle (DestroyHandle)
open WombatThrottle (Throttle Call)

/-- An element of `mPendingActions`, with the number of the action that it is dispatched with. -/
structure PendingAction where
  action : Nat
  handle : Option Nat := none
  retry : Bool
  deriving DecidableEq, Repr

/-- `imageReqImpl`. -/
structure ImageReqImpl where
  mReplyTimer : Bool := false
  mWaitingForResponse : Bool := false
  mP2PListener : Bool := true
  mTimeout : ℚ := 30
  mRetries : Int := 2
  mMsg : Bool := false
  mReqCount : Int := 0
  mPendingActions : List PendingAction := []
  mIsRecapRequest : Bool := false
  mResponse : DestroyHandle := {}
  mReplyTimerStart : ℚ := 0

inductive Ending
  | response
  | endOfInitials
  | timeout
  | stopped
  deriving DecidableEq, Repr

/-- What `imageRequestImpl_processTimeout` has found and will act on. -/
inductive Timeout
  | received (isRecap : Bool)
  | retry
  | final (isRecap : Bool)
  deriving DecidableEq, Repr

/-- A request with the calls under way.  The last fields record what happened. -/
structure Request where
  impl : ImageReqImpl := {}
  destroyed : Bool := false
  /-- The calls of `imageRequest_sendRequest` that have set the fields, with `throttle` and
  `isRecapRequest`. -/
  sending : List (Bool × Bool) := []
  processing : Option Timeout := none
  timers : Nat := 0
  /-- The requests that are not answered yet, and those of them that were not published. -/
  awaited : Nat := 0
  unpublished : Nat := 0
  /-- Since the last `imageRequest_sendRequest`. -/
  published : Nat := 0
  publishedLate : Nat := 0
  endings : List Ending := []
  /-- A callback got the owner of a request that was destroyed. -/
  ownerLate : Bool := false

structure System where
  throttle : Throttle
  request : Nat → Request := fun _ => {}

def start (rate : ℚ) : System := { throttle := WombatThrottle.setRate {} (· * ·) rate }

section

variable (s : System) (q : Request) (r : Nat) (now : ℚ)

def System.setRequest (q : Request) : System :=
  { s with request := Function.update s.request r q }

/-- A callback drops its reference; whether it gets the owner. -/
def Request.removeReference : Bool × Request :=
  let (owner, mResponse) := Common.Handle.removeReference q.impl.mResponse
  (owner, { q with
    impl := { q.impl with mResponse := mResponse }
    ownerLate := q.ownerLate || owner && q.destroyed })

/-! ## The reply timer -/

/-- `imageRequestImpl_checkDestroyReplyTimer`. -/
def checkDestroyReplyTimer : Request :=
  if q.impl.mReplyTimer ∧ now - q.impl.mReplyTimerStart + 1 / 10 < q.impl.mTimeout then
    let q := { q with impl := { q.impl with mReplyTimer := false }, timers := q.timers - 1 }
    q.removeReference.2
  else
    q

/-- `imageRequestImpl_startReplyTimer`. -/
def startReplyTimer : Request :=
  if q.impl.mReplyTimer then q
  else
    { q with
      impl := { q.impl with
        mReplyTimerStart := now
        mResponse := Common.Handle.incrementRefCount q.impl.mResponse
        mReplyTimer := true }
      timers := q.timers + 1 }

/-! ## Requests -/

/-- The element of an action is taken off `mPendingActions`. -/
def Request.takeOff (action : Nat) : Request :=
  { q with
    impl := { q.impl with
      mPendingActions := q.impl.mPendingActions.filter fun p => p.action ≠ action }
    unpublished :=
      if q.impl.mPendingActions.any fun p => p.action = action && !p.retry then q.unpublished - 1
      else q.unpublished }

/-- The message is published, if the request was not stopped. -/
def Request.publish : Request :=
  if q.impl.mMsg then
    let q := startReplyTimer q now
    { q with
      published := q.published + 1
      publishedLate := if q.endings = [] then q.publishedLate else q.publishedLate + 1 }
  else
    q

/-- `requestAction`; without an action it is called by `imageRequest_sendRequest` itself. -/
def requestAction : Option Nat → Request
  | some action => (q.takeOff action).publish now
  | none => { q with unpublished := q.unpublished - 1 }.publish now

/-- An element is put on `mPendingActions` and `requestAction` is dispatched with it; there is no
result without memory. -/
def dispatch (immediate retry : Bool) : Option System :=
  let action := s.throttle.dispatched
  let q := s.request r
  let push (handle : Option Nat) : Request :=
    { q with impl := { q.impl with
      mPendingActions := q.impl.mPendingActions ++ [⟨action, handle, retry⟩] } }
  let throttle := WombatThrottle.dispatch s.throttle r immediate
  if s.throttle.mRate ≤ 0 then
    some { throttle := throttle
           request := Function.update s.request r (requestAction (push none) now (some action)) }
  else
    let throttle := WombatThrottle.enqueueBegin throttle ⟨r, action, immediate⟩
    match throttle.enqueuing with
    | some (_, some (.element n)) => do
      let throttle ← WombatThrottle.enqueueEnd throttle
      some { throttle := throttle, request := Function.update s.request r (push (some n)) }
    | _ => none

/-- `imageRequest_sendRequest` before it takes the locks. -/
def sendRequest (timeout : ℚ) (retries : Int) (throttle isRecapRequest : Bool) : System :=
  let q := s.request r
  s.setRequest r { q with
    impl := { q.impl with
      mTimeout := timeout
      mRetries := retries
      mIsRecapRequest := isRecapRequest
      mWaitingForResponse := true
      mReqCount := 0
      mMsg := true
      mP2PListener := true
      mResponse := Common.Handle.incrementRefCount q.impl.mResponse }
    sending := q.sending ++ [(throttle, isRecapRequest)]
    awaited := q.awaited + 1
    unpublished := q.unpublished + 1
    published := 0
    publishedLate := 0
    endings := [] }

def sendEnd (throttle isRecapRequest : Bool) : Option System :=
  let q := s.request r
  if (throttle, isRecapRequest) ∈ q.sending then
    let q := { q with sending := q.sending.erase (throttle, isRecapRequest) }
    if throttle then dispatch (s.setRequest r q) r now isRecapRequest false
    else some (s.setRequest r (requestAction q now none))
  else
    none

/-- What the handles in `mPendingActions` stand for is taken off the throttle; the elements stay in
`mPendingActions`. -/
def removeActions : Option Throttle :=
  if q.impl.mPendingActions = [] then some s.throttle
  else
    WombatThrottle.removeMessagesFromList s.throttle
      (q.impl.mPendingActions.filterMap PendingAction.handle)

/-- `imageRequest_stopWaitForResponse`.  A request that was not published will not be answered. -/
def stopWaitForResponse : Option System := do
  let q := checkDestroyReplyTimer (s.request r) now
  let throttle ← removeActions s q
  some { throttle := throttle
         request := Function.update s.request r { q with
           impl := { q.impl with
             mWaitingForResponse := false
             mIsRecapRequest := false
             mP2PListener := false
             mMsg := false }
           awaited := q.awaited - q.unpublished
           unpublished := 0 } }

def Request.finish (ending : Ending) : Request := { q with endings := q.endings ++ [ending] }

/-- The wait is stopped, which ends it if there is one. -/
def stopWith (ending : Ending) : Option System := do
  let waiting := (s.request r).impl.mWaitingForResponse
  let s ← stopWaitForResponse s r now
  some (if waiting then s.setRequest r ((s.request r).finish ending) else s)

/-! ## Callbacks -/

/-- `imageRequestImpl_onInitialMessage`, for a message with which the subscription stops the wait or
not. -/
def onInitialMessage (stops : Bool) : Option System :=
  let q := s.request r
  if q.processing = none then
    let (owner, q) := q.removeReference
    let s := s.setRequest r { q with awaited := q.awaited - 1 }
    if owner ∧ stops then stopWith s r now .response else some s
  else
    none

/-- What `imageRequestImpl_processTimeout` looks at. -/
def checkTimeout (received : Bool) : Request :=
  if q.impl.mP2PListener = false then q
  else if received then { q with processing := some (.received q.impl.mIsRecapRequest) }
  else
    let reqCount := q.impl.mReqCount
    let q := { q with impl := { q.impl with mReqCount := reqCount + 1 } }
    if reqCount < q.impl.mRetries then
      if q.impl.mWaitingForResponse then { q with processing := some .retry } else q
    else
      { q with processing := some (.final q.impl.mIsRecapRequest) }

/-- `imageRequestImpl_onReplyTimeout`, up to what it will act on. -/
def onReplyTimeout (received : Bool) : Option System :=
  let q := s.request r
  if 0 < q.timers ∧ q.processing = none then
    let (owner, q) := { q with timers := q.timers - 1 }.removeReference
    some (s.setRequest r
      (if owner then
        checkTimeout { q with impl := { q.impl with mReplyTimer := false } } received
      else q))
  else
    none

/-- The rest of `imageRequestImpl_processTimeout`. -/
def processTimeout : Option System :=
  let q := s.request r
  let s' := s.setRequest r { q with processing := none }
  if q.destroyed then none
  else
    match q.processing with
    | none => none
    | some (.received isRecap) =>
      if isRecap then stopWith s' r now .response
      else do
        let s ← stopWaitForResponse s' r now
        some (s.setRequest r ((s.request r).finish .endOfInitials))
    | some .retry => do
      let s ← dispatch s' r now true true
      some (s.setRequest r (startReplyTimer (s.request r) now))
    | some (.final _) => do
      let s ← stopWaitForResponse s' r now
      let q := (s.request r).removeReference.2
      -- the response is not expected any longer
      some (s.setRequest r ({ q with awaited := q.awaited - 1 }.finish .timeout))

/-- `wombatThrottle_sendQueuedMessage`. -/
def sendQueuedMessage : Option System := do
  let phase := s.throttle.phase
  let throttle ← WombatThrottle.sendQueuedMessage s.throttle .drainRunning id
  match throttle.phase with
  | .drainRunning info =>
    let action := throttle.info info
    let q := s.request action.mOwner
    if q.destroyed then none
    else
      let throttle := WombatThrottle.freeElement throttle info
      some { throttle := { throttle with phase := phase }
             request := Function.update s.request action.mOwner
               (requestAction q now (some action.action)) }
  | _ => some s

/-- `imageRequest_destroy`, with a transport or without one. -/
def destroy (transport : Bool) : Option System := do
  let s ←
    if transport ∧ (s.request r).impl.mWaitingForResponse then stopWith s r now .stopped
    else some s
  let q := s.request r
  some (s.setRequest r { q with
    impl := { q.impl with mResponse := Common.Handle.destroyOwner q.impl.mResponse }
    destroyed := true })

end

/-! ## Steps -/

inductive Event
  | sendRequest (r : Nat) (timeout : ℚ) (retries : Int) (throttle isRecapRequest : Bool)
  | sendEnd (r : Nat) (throttle isRecapRequest : Bool) (now : ℚ)
  | stopWaitForResponse (r : Nat) (now : ℚ)
  | destroy (r : Nat) (transport : Bool) (now : ℚ)
  | onInitialMessage (r : Nat) (stops : Bool) (now : ℚ)
  | onReplyTimeout (r : Nat) (received : Bool)
  | processTimeout (r : Nat) (now : ℚ)
  | sendQueuedMessage (now : ℚ)
  deriving DecidableEq

def System.alive (s : System) (r : Nat) : Bool := !(s.request r).destroyed

def step (s : System) : Event → Option System
  | .sendRequest r timeout retries throttle isRecapRequest =>
    if s.alive r then some (sendRequest s r timeout retries throttle isRecapRequest) else none
  | .sendEnd r throttle isRecapRequest now =>
    if s.alive r then sendEnd s r now throttle isRecapRequest else none
  | .stopWaitForResponse r now => if s.alive r then stopWith s r now .stopped else none
  | .destroy r transport now => if s.alive r then destroy s r now transport else none
  | .onInitialMessage r stops now => onInitialMessage s r now stops
  | .onReplyTimeout r received => onReplyTimeout s r received
  | .processTimeout r now => processTimeout s r now
  | .sendQueuedMessage now => sendQueuedMessage s now

/-! ## What a step does -/

variable {s s' : System} {r : Nat} {now : ℚ} {stops received transport : Bool}

/-- An action waits in `mPendingActions`. -/
def Request.push (q : Request) (pending : PendingAction) : Request :=
  { q with impl := { q.impl with mPendingActions := q.impl.mPendingActions ++ [pending] } }

def Request.answered (q : Request) : Request :=
  { q.removeReference.2 with awaited := q.awaited - 1 }

def Request.stopped (q : Request) (now : ℚ) : Request :=
  let q := checkDestroyReplyTimer q now
  { q with
    impl := { q.impl with
      mWaitingForResponse := false
      mIsRecapRequest := false
      mP2PListener := false
      mMsg := false }
    awaited := q.awaited - q.unpublished
    unpublished := 0 }

/-- A timer has dropped its reference, and the timeout was looked at. -/
def Request.timedOut (q : Request) (received : Bool) : Request :=
  let q := { q with timers := q.timers - 1 }
  if q.removeReference.1 then
    checkTimeout { q.removeReference.2 with
      impl := { q.removeReference.2.impl with mReplyTimer := false } } received
  else q.removeReference.2

theorem onInitialMessage_cases (h : onInitialMessage s r now stops = some s') :
    (s.request r).processing = none ∧
      (((s.request r).removeReference.1 ∧ stops ∧
          stopWith (s.setRequest r (s.request r).answered) r now .response = some s') ∨
        (¬ ((s.request r).removeReference.1 ∧ stops) ∧
          s' = s.setRequest r (s.request r).answered)) := by
  have hdef : onInitialMessage s r now stops =
      if (s.request r).processing = none then
        if (s.request r).removeReference.1 ∧ stops then
          stopWith (s.setRequest r (s.request r).answered) r now .response
        else some (s.setRequest r (s.request r).answered)
      else none := rfl
  rw [hdef] at h
  obtain ⟨hprocessing, h⟩ := ite_none_right_eq_some.1 h
  refine ⟨hprocessing, ?_⟩
  by_cases howner : (s.request r).removeReference.1 ∧ stops
  · rw [if_pos howner] at h; exact .inl ⟨howner.1, howner.2, h⟩
  · rw [if_neg howner] at h; exact .inr ⟨howner, (some.inj h).symm⟩

theorem onReplyTimeout_cases (h : onReplyTimeout s r received = some s') :
    0 < (s.request r).timers ∧ (s.request r).processing = none ∧
      s' = s.setRequest r ((s.request r).timedOut received) := by
  obtain ⟨⟨htimers, hprocessing⟩, h⟩ := ite_none_right_eq_some.1 h
  exact ⟨htimers, hprocessing, (some.inj h).symm⟩

theorem System.setRequest_twice {s₁ s₂ : System} {q q₁ : Request} (hs₁ : s₁ = s.setRequest r q₁)
    (f : Request → Request) (h : s₂.request = Function.update s₁.request r q) :
    (s₂.setRequest r (f (s₂.request r))).request = Function.update s.request r (f q) := by
  show Function.update s₂.request r (f (s₂.request r)) = _
  rw [h, Function.update_self, Function.update_idem, hs₁]
  exact Function.update_idem _ _ _

theorem processTimeout_cases (h : processTimeout s r now = some s') :
    (s.request r).destroyed = false ∧ ∃ timeout, (s.request r).processing = some timeout ∧
      ∃ s₁, s₁ = s.setRequest r { s.request r with processing := none } ∧
        match timeout with
        | .received true => stopWith s₁ r now .response = some s'
        | .received false => ∃ s₂, stopWaitForResponse s₁ r now = some s₂ ∧
            s' = s₂.setRequest r ((s₂.request r).finish .endOfInitials)
        | .retry => ∃ s₂, dispatch s₁ r now true true = some s₂ ∧
            s' = s₂.setRequest r (startReplyTimer (s₂.request r) now)
        | .final _ => ∃ s₂, stopWaitForResponse s₁ r now = some s₂ ∧
            s' = s₂.setRequest r ((s₂.request r).answered.finish .timeout) := by
  obtain ⟨hdestroyed, h⟩ := ite_none_left_eq_some.1 h
  refine ⟨Bool.eq_false_iff.mpr hdestroyed, ?_⟩
  cases hprocessing : (s.request r).processing with
  | none => rw [hprocessing] at h; cases h
  | some timeout =>
    rw [hprocessing] at h
    refine ⟨timeout, rfl, _, rfl, ?_⟩
    cases timeout with
    | received isRecap =>
      cases isRecap with
      | true => exact (if_pos rfl).symm.trans h
      | false =>
        obtain ⟨s₂, hstop, h⟩ := bind_eq_some_iff.1 ((if_neg Bool.false_ne_true).symm.trans h)
        exact ⟨s₂, hstop, (some.inj h).symm⟩
    | retry =>
      obtain ⟨s₂, hdispatch, h⟩ := bind_eq_some_iff.1 h
      exact ⟨s₂, hdispatch, (some.inj h).symm⟩
    | final isRecap =>
      obtain ⟨s₂, hstop, h⟩ := bind_eq_some_iff.1 h
      exact ⟨s₂, hstop, (some.inj h).symm⟩

theorem destroy_cases (h : destroy s r now transport = some s') :
    ∃ s₁, ((transport ∧ (s.request r).impl.mWaitingForResponse ∧
        stopWith s r now .stopped = some s₁) ∨
      (¬ (transport ∧ (s.request r).impl.mWaitingForResponse) ∧ s₁ = s)) ∧
      s' = s₁.setRequest r { s₁.request r with
        impl := { (s₁.request r).impl with
          mResponse := Common.Handle.destroyOwner (s₁.request r).impl.mResponse }
        destroyed := true } := by
  by_cases hwaits : transport ∧ (s.request r).impl.mWaitingForResponse
  · obtain ⟨s₁, hstop, h⟩ := bind_eq_some_iff.1 ((if_pos hwaits).symm.trans h)
    exact ⟨s₁, .inl ⟨hwaits.1, hwaits.2, hstop⟩, (some.inj h).symm⟩
  · have h := (if_neg hwaits).symm.trans h
    exact ⟨s, .inr ⟨hwaits, rfl⟩, (some.inj h).symm⟩

theorem sendEnd_cases {throttle isRecapRequest : Bool}
    (h : sendEnd s r now throttle isRecapRequest = some s') :
    (throttle, isRecapRequest) ∈ (s.request r).sending ∧
      ∃ q, q = { s.request r with
        sending := (s.request r).sending.erase (throttle, isRecapRequest) } ∧
        if throttle then dispatch (s.setRequest r q) r now isRecapRequest false = some s'
        else s' = s.setRequest r (requestAction q now none) := by
  obtain ⟨hmem, h⟩ := ite_none_right_eq_some.1 h
  refine ⟨hmem, _, rfl, ?_⟩
  cases throttle with
  | true => exact h
  | false => exact (some.inj h).symm

theorem stopWaitForResponse_cases (h : stopWaitForResponse s r now = some s') :
    s'.request = Function.update s.request r ((s.request r).stopped now) := by
  obtain ⟨throttle, -, h⟩ := bind_eq_some_iff.1 h
  cases h
  rfl

theorem stopWith_cases {ending : Ending} (h : stopWith s r now ending = some s') :
    s'.request = Function.update s.request r
      (if (s.request r).impl.mWaitingForResponse then ((s.request r).stopped now).finish ending
        else (s.request r).stopped now) := by
  obtain ⟨s₁, hstop, h⟩ := bind_eq_some_iff.1 h
  cases h
  have hrequest := stopWaitForResponse_cases hstop
  split
  · show Function.update s₁.request r ((s₁.request r).finish ending) = _
    rw [hrequest, Function.update_self, Function.update_idem]
  · exact hrequest

end Mama.ImageRequest
