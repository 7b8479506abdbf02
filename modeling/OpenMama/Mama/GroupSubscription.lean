import Mathlib.Logic.Function.Basic
import OpenMama.Mama.ListenerMsgCallback

/-!
# Group subscriptions

A group subscription keeps a context for every symbol (`mSubjects`), made when the first message of
the symbol arrives, with a recap request of its own.  The rest its symbols share (`Shared`): whether
initials are expected, how many came, the one request for the initials, `mTryToFillGap` of the
strategy and the default context.

`mamaSubscription_setupBasic` has a group accept any number of initials and check the sequence
numbers.  What a message does to the context of its symbol is then what it does to a subscription of
one subject (`view`, `settle`).  A response to a recap request is a message of the symbol that was
asked for.  A message without an issue symbol is dropped and does not appear.
-/

namespace Mama.Group

open Dq (Transport Context Msg Act Error Subscription)

/-! ## The subscription -/

/-- An image request: whether it has an inbox, and whether a timer of it may be alive. -/
structure Request where
  p2pListener : Bool := true
  waitingForResponse : Bool := false
  reqCount : Int := 0
  isRecapRequest : Bool := false
  replyTimer : Bool := false
  deriving DecidableEq, Repr

structure SubjectContext where
  dqContext : Context
  initialArrived : Bool := false
  imageCount : Nat := 0
  recapRequest : Request := {}
  deriving DecidableEq

structure Setup where
  transport : Transport
  retries : Int
  preInitialCacheSize : Nat
  expectsUpdates : Bool

structure Shared where
  expectingInitial : Bool
  initialCount : Nat
  initialRequest : Request
  tryToFillGap : Bool
  /-- `mSubjectContext`, which is no symbol's. -/
  subjectContext : SubjectContext
  active : Bool
  deriving DecidableEq

structure GroupSubscription (σ : Type) where
  shared : Shared
  subjects : σ → Option SubjectContext

inductive Report
  | act (a : Act)
  | cached (m : Msg)
  | endOfInitials
  | retry
  deriving DecidableEq

/-- The shared values, the context of the symbol, and what is reported. -/
abbrev Result := Shared × SubjectContext × List Report

/-! ## Image requests -/

/-- `imageRequest_sendRequest`, in the request. -/
def Request.sendRequest (q : Request) (isRecapRequest : Bool) : Request :=
  { q with
    p2pListener := true
    waitingForResponse := true
    reqCount := 0
    isRecapRequest := isRecapRequest
    replyTimer := true }

/-- `imageRequest_stopWaitForResponse`, in the request.  A timer that is about to fire stays. -/
def Request.stop (q : Request) : Request :=
  { q with p2pListener := false, waitingForResponse := false, isRecapRequest := false }

section

variable (setup : Setup) (s : Shared) (ctx : SubjectContext) (m : Msg)

/-- `mamaSubscription_stopWaitForResponse`. -/
def stopWaitForResponse : Shared × SubjectContext :=
  ({ s with expectingInitial := false, initialRequest := s.initialRequest.stop },
    { ctx with recapRequest := ctx.recapRequest.stop })

/-- The recap request of a context is sent, by `dqStrategy_sendRecapRequest`. -/
def sendRecapRequest : Shared × SubjectContext :=
  ({ s with initialCount := 0 },
    { ctx with imageCount := 0, recapRequest := ctx.recapRequest.sendRequest true })

/-- `imageRequestImpl_processTimeout` of a request whose context has `imageCount` images. -/
def processTimeout (q : Request) (imageCount : Nat) : Shared × Request × List Report :=
  if q.p2pListener = false then (s, q, [])
  else if 0 < (if q.isRecapRequest then imageCount else s.initialCount) then
    let s := { s with expectingInitial := false }
    if q.isRecapRequest then (s, q.stop, [])
    else if setup.expectsUpdates then (s, q.stop, [.endOfInitials])
    else ({ s with active := false }, q.stop, [.act .deactivate, .endOfInitials])
  else
    let reqCount := q.reqCount
    let q := { q with reqCount := reqCount + 1 }
    if reqCount < setup.retries then
      if q.waitingForResponse then (s, { q with replyTimer := true }, [.retry]) else (s, q, [])
    else
      let s := { s with expectingInitial := false }
      if q.isRecapRequest then (s, q.stop, [.act (.onError .timeout)])
      else ({ s with active := false }, q.stop, [.act .deactivate, .act (.onError .timeout)])

/-! ## Messages -/

/-- A context with the shared values, as the subscription of one subject that it would be. -/
def view : Subscription where
  transport := setup.transport
  recoverGaps := true
  acceptMultipleInitials := true
  expectsUpdates := setup.expectsUpdates
  expectingInitial := s.expectingInitial
  initialArrived := ctx.initialArrived
  imageCount := ctx.imageCount
  dq := ⟨ctx.dqContext, s.tryToFillGap⟩

/-- What such a subscription leaves, and its acts; a recap is asked for with the request of the
context. -/
def settle (x : Subscription) (acts : List Act) : Result :=
  let s := { s with tryToFillGap := x.dq.tryToFillGap }
  let ctx := { ctx with
    dqContext := x.dq.ctx
    initialArrived := x.initialArrived
    imageCount := x.imageCount }
  let (s, ctx) := if .recapRequest ∈ acts then sendRecapRequest s ctx else (s, ctx)
  (s, ctx, acts.map .act)

/-- `mamaSubscription_setPossiblyStale`, on the default context. -/
def setPossiblyStale : Shared × List Report :=
  if s.subjectContext.dqContext.dqState = .ok then
    let c := { s.subjectContext.dqContext with dqState := .possiblyStale }
    ({ s with subjectContext := { s.subjectContext with dqContext := c } },
      [.act (.onQuality .maybeStale)])
  else (s, [])

/-- `listenerMsgCallback_invokeErrorCallback`. -/
def invokeErrorCallback (error : Error) : Result :=
  let (s, ctx) := stopWaitForResponse s ctx
  (s, ctx, [.act (.onError error)])

def processPointToPointMessage : Result :=
  let (x, acts) := (view setup s ctx).processPointToPointMessage m
  let s :=
    if m.msgTotal = 0 ∨ m.msgNum = m.msgTotal then { s with initialCount := s.initialCount + 1 }
    else s
  settle s ctx x acts

/-- The check of a message and, unless it says not to, its forwarding. -/
def checkAndForward : Result :=
  let (x, acts) := (view setup s ctx).checkAndForward m
  settle s ctx x acts

def dispatch : Result :=
  match m.msgType with
  | .refresh => (s, ctx, [.act .respondToRefresh])
  | .delete => invokeErrorCallback s ctx .delete
  | .expire => invokeErrorCallback s ctx .expired
  | .notPermissioned => invokeErrorCallback s ctx .notPermissioned
  | .notFound => invokeErrorCallback s ctx .notFound
  | .unknown => (s, ctx, [])
  | _ => checkAndForward setup s ctx m

def cacheMsg : Result :=
  (s, { ctx with dqContext := ((view setup s ctx).cacheMsg m).dq.ctx }, [.cached m])

def processType : Result :=
  if Subscription.isInitialMessageOrRecap m.msgType then processPointToPointMessage setup s ctx m
  else if (view setup s ctx).caches m then cacheMsg setup s ctx m
  else dispatch setup s ctx m

/-- `listenerMsgCallback_processMsg`. -/
def processMsg : Result :=
  match m.status with
  | .notPermissioned => invokeErrorCallback s ctx .notPermissioned
  | .badSymbol => invokeErrorCallback s ctx .badSymbol
  | .expired => invokeErrorCallback s ctx .expired
  | .notFound => invokeErrorCallback s ctx .notFound
  | .timeout => invokeErrorCallback s ctx .timeout
  | .noSubscribers => invokeErrorCallback s ctx .noSubscribers
  | .bandwidthExceeded => invokeErrorCallback s ctx .bandwidthExceeded
  | .unknown =>
    let (s, reports) := setPossiblyStale s
    (s, ctx, reports)
  | .possiblyStale =>
    if m.msgType = .misc then
      let (s, reports) := setPossiblyStale s
      let (s, ctx, more) := processType setup s ctx m
      (s, ctx, reports ++ more)
    else processType setup s ctx m
  | _ => processType setup s ctx m

end

/-! ## Steps -/

inductive Via
  | topic
  | initialInbox
  | recapInbox
  deriving DecidableEq, Repr

inductive Event (σ : Type)
  | message (symbol : σ) (via : Via) (m : Msg)
  | initialTimeout
  | recapTimeout (symbol : σ)
  deriving DecidableEq

section

variable {σ : Type} [DecidableEq σ] (setup : Setup) (g : GroupSubscription σ)

/-- The context of a symbol, a new one where there is none. -/
def getSubjectContext (b : σ) : SubjectContext :=
  (g.subjects b).getD { dqContext := .initializeContext setup.preInitialCacheSize }

/-- Whether a message gets through; an inbox that was destroyed gets none. -/
def arrives (s : Shared) (ctx : SubjectContext) : Via → Bool
  | .topic => s.active
  | .initialInbox => s.active && s.initialRequest.p2pListener
  | .recapInbox => s.active && ctx.recapRequest.p2pListener

def handle : Event σ → GroupSubscription σ × List Report
  | .message b via m =>
    let ctx := getSubjectContext setup g b
    if arrives g.shared ctx via then
      let (s, ctx, reports) := processMsg setup g.shared ctx m
      ({ shared := s, subjects := Function.update g.subjects b (some ctx) }, reports)
    else (g, [])
  | .initialTimeout =>
    let q := g.shared.initialRequest
    if q.replyTimer then
      let (s, q, reports) := processTimeout setup g.shared { q with replyTimer := false }
        g.shared.subjectContext.imageCount
      ({ g with shared := { s with initialRequest := q } }, reports)
    else (g, [])
  | .recapTimeout b =>
    let ctx := getSubjectContext setup g b
    if ctx.recapRequest.replyTimer then
      let (s, q, reports) := processTimeout setup g.shared
        { ctx.recapRequest with replyTimer := false } ctx.imageCount
      ({ shared := s
         subjects := Function.update g.subjects b (some { ctx with recapRequest := q }) }, reports)
    else (g, [])

def step (e : Event σ) : GroupSubscription σ := (handle setup g e).1

def reports (e : Event σ) : List Report := (handle setup g e).2

def run (es : List (Event σ)) : GroupSubscription σ := es.foldl (step setup) g

def start : GroupSubscription σ where
  shared :=
    { expectingInitial := true
      initialCount := 0
      initialRequest := Request.sendRequest {} false
      tryToFillGap := false
      subjectContext := { dqContext := .initializeContext setup.preInitialCacheSize }
      active := true }
  subjects := fun _ => none

end

end Mama.Group
