import OpenMama.Lib.Locks
import OpenMama.Mama.Subscription

/-!
# The locks of subscriptions

The lists of the throttles, the subscriptions and the image requests have recursive locks, which the
calls take one under the other.  A call is the locks that it takes and releases, for what it finds
in the subscription; the subscriptions of a transport share its two throttles.

The locks have an order but for one pair: `deactivate` locks a subscription under the list of the
throttle, and so does the throttle for the actions that it runs, while `activate` locks the list
under the subscription.  Threads that cross at these two block each other.  Threads that do not are
never in a cycle (`no_deadlock_of_runs`).
-/

namespace Mama.Locking

open List

open Lib (LockOp Thread locked Follows heldAfter under Crosses Apart TakesApart Exclusive WaitsFor
  Deadlocked lockStep Runs Reachable)
open Lifecycle (State)

/-! ## Locks -/

/-- `mamaThrottleInstance`; `MAMA_THROTTLE_INITIAL` is the default one. -/
inductive ThrottleInstance
  | default
  | recap
  deriving DecidableEq, Repr

/-- `mInitialRequest` of a subscription, and `mRecapRequest` of its contexts. -/
inductive ImageRequest
  | initial (subscription : Nat)
  | recap (subscription context : Nat)
  deriving DecidableEq, Repr

/-- The `mThrottle` it was created with. -/
def ImageRequest.throttle : ImageRequest → ThrottleInstance
  | .initial _ => .default
  | .recap _ _ => .recap

inductive Lock
  | mMsgQueue (throttle : ThrottleInstance)
  | mCreateDestroyLock (subscription : Nat)
  | mLock (request : ImageRequest)
  deriving DecidableEq, Repr

abbrev Ops := List (LockOp Lock)

/-! ## Image requests -/

def requestAction (r : ImageRequest) : Ops :=
  locked (.mMsgQueue r.throttle) (locked (.mLock r) [])

/-- `wombatThrottle_dispatch`; without a rate the action runs at once. -/
def dispatch (throttle : ThrottleInstance) (rated : Bool) (action : Ops) : Ops :=
  if rated then locked (.mMsgQueue throttle) [] else action

/-- `imageRequest_sendRequest`. -/
def sendRequest (r : ImageRequest) (throttled rated : Bool) : Ops :=
  if throttled then
    locked (.mMsgQueue r.throttle) (locked (.mLock r) (dispatch r.throttle rated (requestAction r)))
  else requestAction r

/-- `imageRequest_stopWaitForResponse`, with pending actions or not. -/
def stopWaitForResponse (r : ImageRequest) (pending : Bool) : Ops :=
  locked (.mMsgQueue r.throttle) (locked (.mLock r)
    -- `wombatThrottle_removeMessagesFromList`
    (if pending then locked (.mMsgQueue r.throttle) [] else []))

/-- `imageRequest_destroy`, of a subscription with a transport or not. -/
def imageRequestDestroy (r : ImageRequest) (transport waiting pending : Bool) : Ops :=
  if transport then
    locked (.mMsgQueue r.throttle) (locked (.mLock r)
      (if waiting then stopWaitForResponse r pending else []))
  else []

/-! ## Subscriptions -/

structure Found where
  mState : State
  basic : Bool := false
  /-- `mTransport` is set, and its throttle has a rate. -/
  transport : Bool := true
  rated : Bool := true
  mRequiresInitial : Bool := true
  /-- The requests wait for a response, and have pending actions. -/
  initialWaiting : Bool := false
  initialPending : Bool := false
  recapWaiting : Bool := false
  recapPending : Bool := false

variable (s : Nat) (found : Found)

/-- `mamaSubscriptionImpl_completeMarketDataInitialisation`. -/
def completeMarketDataInitialisation : Ops :=
  locked (.mCreateDestroyLock s)
    (if found.mState = .activating ∧ found.mRequiresInitial then sendRequest (.initial s) false
      found.rated
      else [])

def createAction : Ops := completeMarketDataInitialisation s found

/-- `mamaSubscription_activate_internal`. -/
def activateInternal : Ops :=
  if found.transport then
    dispatch .default found.rated (createAction s { found with mState := .activating })
  else []

/-- `mamaSubscription_activate`. -/
def activate : Ops :=
  locked (.mCreateDestroyLock s)
    (if found.basic then []
      else match found.mState with
        | .deactivated | .setup => activateInternal s found
        | _ => [])

/-- `mamaSubscription_deactivate_internal`. -/
def deactivateInternal : Ops :=
  (if found.initialWaiting then stopWaitForResponse (.initial s) found.initialPending else []) ++
    if found.recapWaiting then stopWaitForResponse (.recap s 0) found.recapPending else []

/-- The section of `mamaSubscription_deactivate` under `mCreateDestroyLock`; a basic subscription
has no image requests. -/
def deactivateSection : Ops :=
  locked (.mCreateDestroyLock s)
    (if found.mState = .activated ∧ ¬ found.basic then deactivateInternal s found else [])

/-- `mamaSubscription_deactivate`. -/
def deactivate : Ops :=
  if found.transport ∧ ¬ found.basic then
    locked (.mMsgQueue .default) (deactivateSection s found)
  else deactivateSection s found

/-- `mamaSubscription_cleanup` sets `mTransport` to `NULL` before it destroys the requests. -/
def cleanup (contexts : List Nat) : Ops :=
  imageRequestDestroy (.initial s) false found.initialWaiting found.initialPending ++
    (0 :: contexts).flatMap fun context =>
      imageRequestDestroy (.recap s context) false found.recapWaiting found.recapPending

/-- `mamaSubscription_destroy`, which finds the subscription in `after` once it was deactivated. -/
def destroy (after : State) (contexts : List Nat) : Ops :=
  deactivate s found ++ locked (.mCreateDestroyLock s)
    (match after with
      | .setup | .deactivated => cleanup s found contexts
      | _ => [])

/-- `mamaSubscriptionImpl_onSubscriptionDestroyed`. -/
def onSubscriptionDestroyed (contexts : List Nat) : Ops :=
  locked (.mCreateDestroyLock s)
    (match found.mState with
      | .deallocating | .destroying => cleanup s found contexts
      | .reactivating => activate s { found with mState := .deactivated }
      | _ => [])

/-! ## Threads -/

inductive Action
  | createAction (s : Nat) (found : Found)
  | requestAction (r : ImageRequest)

def Action.throttle : Action → ThrottleInstance
  | .createAction .. => .default
  | .requestAction r => r.throttle

def Action.ops : Action → Ops
  | .createAction s found => Locking.createAction s found
  | .requestAction r => Locking.requestAction r

/-- `wombatThrottle_sendQueuedMessage`, with the action at the front if there is one. -/
def sendQueuedMessage (throttle : ThrottleInstance) (action : Option Action) : Ops :=
  locked (.mMsgQueue throttle)
    (match action with
      | some action => if action.throttle = throttle then action.ops else []
      | none => [])

inductive Call
  | activate (s : Nat) (found : Found)
  | deactivate (s : Nat) (found : Found)
  | destroy (s : Nat) (found : Found) (after : State) (contexts : List Nat)
  | onSubscriptionDestroyed (s : Nat) (found : Found) (contexts : List Nat)
  | sendQueuedMessage (throttle : ThrottleInstance) (action : Option Action)
  | sendRequest (r : ImageRequest) (throttled rated : Bool)
  | stopWaitForResponse (r : ImageRequest) (pending : Bool)

def Call.ops : Call → Ops
  | .activate s found => Locking.activate s found
  | .deactivate s found => Locking.deactivate s found
  | .destroy s found after contexts => Locking.destroy s found after contexts
  | .onSubscriptionDestroyed s found contexts => Locking.onSubscriptionDestroyed s found contexts
  | .sendQueuedMessage throttle action => Locking.sendQueuedMessage throttle action
  | .sendRequest r throttled rated => Locking.sendRequest r throttled rated
  | .stopWaitForResponse r pending => Locking.stopWaitForResponse r pending

def start {ι : Type} (calls : ι → List Call) (i : ι) : Thread Lock :=
  { rest := (calls i).flatMap Call.ops }

/-- The list of the default throttle and a subscription are locked in both orders. -/
def bothOrders : Lock → Lock → Bool
  | .mMsgQueue .default, .mCreateDestroyLock _ => true
  | _, _ => false

/-! ## The discipline -/

/-- Which locks are taken under which: a subscription and the default throttle in both orders,
then the throttle of recaps, then a request, which is locked under its throttle only. -/
def Allowed (held : List Lock) (l : Lock) : Prop :=
  (∀ r, .mLock r ∈ held → .mMsgQueue r.throttle ∈ held) ∧
    (l ∈ held ∨ match l with
      | .mMsgQueue .default => ∀ m ∈ held, ∃ s, m = .mCreateDestroyLock s
      | .mCreateDestroyLock _ => ∀ m ∈ held, m = .mMsgQueue .default
      | .mMsgQueue .recap => ∀ m ∈ held, m = .mMsgQueue .default ∨ ∃ s, m = .mCreateDestroyLock s
      | .mLock r => .mMsgQueue r.throttle ∈ held)

/-- Nothing but the default throttle and subscriptions. -/
def Plain (held : List Lock) : Prop :=
  ∀ m ∈ held, m = .mMsgQueue .default ∨ ∃ s, m = .mCreateDestroyLock s

def Balanced (ops : Ops) : Prop := ∀ held, heldAfter held ops = held

variable {s found} {held : List Lock} {ops ops' : Ops} {l : Lock} {r : ImageRequest}
  {contexts : List Nat}

theorem balanced_nil : Balanced [] := fun _ => rfl

theorem Balanced.append (h : Balanced ops) (h' : Balanced ops') : Balanced (ops ++ ops') := by
  intro held
  rw [Lib.heldAfter_append, h, h']

theorem Balanced.locked (h : Balanced ops) (l : Lock) : Balanced (locked l ops) := by
  intro held
  rw [Lib.heldAfter_locked, h, erase_cons_head]

theorem Balanced.ite {p : Prop} [Decidable p] (h : Balanced ops) (h' : Balanced ops') :
    Balanced (if p then ops else ops') := by
  split
  · exact h
  · exact h'

theorem Plain.notLock (h : Plain held) (r : ImageRequest) : .mLock r ∉ held := by
  intro hmem
  rcases h _ hmem with heq | ⟨s, heq⟩
  · cases heq
  · cases heq

theorem Plain.cons (h : Plain held)
    (hl : l = .mMsgQueue .default ∨ ∃ s, l = .mCreateDestroyLock s) :
    Plain (l :: held) := by
  intro m hm
  rcases mem_cons.mp hm with rfl | hm
  · exact hl
  · exact h m hm

theorem Plain.throttle (h : Plain held) (throttle : ThrottleInstance) :
    Allowed held (.mMsgQueue throttle) := by
  refine ⟨fun r hr => absurd hr (h.notLock r), ?_⟩
  cases throttle with
  | default =>
    by_cases hmem : .mMsgQueue .default ∈ held
    · exact .inl hmem
    · refine .inr fun m hm => (h m hm).resolve_left ?_
      rintro rfl
      exact hmem hm
  | recap => exact .inr h

section

variable (h : Allowed held (.mMsgQueue r.throttle))

include h

theorem Allowed.lock : Allowed (.mMsgQueue r.throttle :: held) (.mLock r) :=
  ⟨fun r' hr' => mem_cons_of_mem _ (h.1 r' ((mem_cons.mp hr').resolve_left (by simp))),
    .inr mem_cons_self⟩

theorem Allowed.again :
    Allowed (.mLock r :: .mMsgQueue r.throttle :: held) (.mMsgQueue r.throttle) := by
  refine ⟨fun r' hr' => ?_, .inl (mem_cons_of_mem _ mem_cons_self)⟩
  rcases mem_cons.mp hr' with heq | hr'
  · obtain rfl := Lock.mLock.inj heq; exact mem_cons_of_mem _ mem_cons_self
  · exact mem_cons_of_mem _ (h.lock.1 r' hr')

/-! ## The calls keep it -/

theorem requestAction_follows : Follows Allowed held (requestAction r) := by
  exact ⟨h, h.lock, trivial⟩

omit h in
theorem balanced_requestAction (r : ImageRequest) : Balanced (requestAction r) :=
  (balanced_nil.locked _).locked _

theorem sendRequest_follows (throttled rated : Bool) :
    Follows Allowed held (sendRequest r throttled rated) := by
  unfold sendRequest dispatch
  split
  · rw [Lib.follows_locked, Lib.follows_locked]
    refine ⟨h, h.lock, ?_⟩
    split
    · rw [Lib.follows_locked]; exact ⟨h.again, trivial⟩
    · exact requestAction_follows h.again
  · exact requestAction_follows h

omit h in
theorem balanced_sendRequest (r : ImageRequest) (throttled rated : Bool) :
    Balanced (sendRequest r throttled rated) :=
  (((balanced_nil.locked _).ite (balanced_requestAction r)).locked _ |>.locked _).ite
    (balanced_requestAction r)

theorem stopWaitForResponse_follows (pending : Bool) :
    Follows Allowed held (stopWaitForResponse r pending) := by
  rw [stopWaitForResponse, Lib.follows_locked, Lib.follows_locked]
  refine ⟨h, h.lock, ?_⟩
  split
  · rw [Lib.follows_locked]; exact ⟨h.again, trivial⟩
  · trivial

end

theorem balanced_stopWaitForResponse (r : ImageRequest) (pending : Bool) :
    Balanced (stopWaitForResponse r pending) :=
  (((balanced_nil.locked _).ite balanced_nil).locked _).locked _

theorem createAction_follows (h : Plain held) (hs : Allowed held (.mCreateDestroyLock s)) :
    Follows Allowed held (createAction s found) := by
  rw [createAction, completeMarketDataInitialisation, Lib.follows_locked]
  refine ⟨hs, ?_⟩
  split
  · exact sendRequest_follows ((h.cons (.inr ⟨s, rfl⟩)).throttle _) false _
  · trivial

theorem balanced_createAction (s : Nat) (found : Found) : Balanced (createAction s found) :=
  ((balanced_sendRequest _ _ _).ite balanced_nil).locked _

theorem activateInternal_follows (h : Plain held) :
    Follows Allowed (.mCreateDestroyLock s :: held) (activateInternal s found) := by
  have hplain : Plain (.mCreateDestroyLock s :: held) := h.cons (.inr ⟨s, rfl⟩)
  unfold activateInternal dispatch
  split
  · split
    · rw [Lib.follows_locked]; exact ⟨hplain.throttle _, trivial⟩
    · exact createAction_follows hplain
        ⟨fun r hr => absurd hr (hplain.notLock r), .inl mem_cons_self⟩
  · trivial

theorem balanced_activateInternal (s : Nat) (found : Found) : Balanced (activateInternal s found) :=
  ((balanced_nil.locked _).ite (balanced_createAction _ _)).ite balanced_nil

theorem activate_follows (h : Plain held) (hs : Allowed held (.mCreateDestroyLock s)) :
    Follows Allowed held (activate s found) := by
  rw [activate, Lib.follows_locked]
  refine ⟨hs, ?_⟩
  split
  · trivial
  · split
    · exact activateInternal_follows h
    · exact activateInternal_follows h
    · trivial

theorem balanced_activate (s : Nat) (found : Found) : Balanced (activate s found) := by
  refine Balanced.locked (balanced_nil.ite ?_) _
  split
  · exact balanced_activateInternal s found
  · exact balanced_activateInternal s found
  · exact balanced_nil

theorem deactivateSection_follows (h : Plain held) (hs : Allowed held (.mCreateDestroyLock s)) :
    Follows Allowed held (deactivateSection s found) := by
  have hplain : Plain (.mCreateDestroyLock s :: held) := h.cons (.inr ⟨s, rfl⟩)
  rw [deactivateSection, deactivateInternal, Lib.follows_locked]
  refine ⟨hs, ?_⟩
  split
  · rw [Lib.follows_append]
    constructor
    · split
      · exact stopWaitForResponse_follows (hplain.throttle _) _
      · trivial
    have hbalanced : Balanced (if found.initialWaiting then
        stopWaitForResponse (.initial s) found.initialPending else []) :=
      (balanced_stopWaitForResponse _ _).ite balanced_nil
    rw [hbalanced]
    split
    · exact stopWaitForResponse_follows (hplain.throttle _) _
    · trivial
  · trivial

theorem balanced_deactivateSection (s : Nat) (found : Found) :
    Balanced (deactivateSection s found) :=
  ((((balanced_stopWaitForResponse _ _).ite balanced_nil).append
    ((balanced_stopWaitForResponse _ _).ite balanced_nil)).ite balanced_nil).locked _

theorem plain_nil : Plain [] := fun m hm => absurd hm (by simp)

theorem allowed_nil (s : Nat) : Allowed [] (.mCreateDestroyLock s) :=
  ⟨fun r hr => absurd hr (by simp), .inr fun m hm => absurd hm (by simp)⟩

theorem allowed_default (s : Nat) : Allowed [.mMsgQueue .default] (.mCreateDestroyLock s) :=
  ⟨fun r hr => absurd (mem_singleton.mp hr) (by simp), .inr fun m hm => mem_singleton.mp hm⟩

theorem deactivate_follows : Follows Allowed [] (deactivate s found) := by
  unfold deactivate
  split
  · rw [Lib.follows_locked]
    exact ⟨plain_nil.throttle _,
      deactivateSection_follows (plain_nil.cons (.inl rfl)) (allowed_default s)⟩
  · exact deactivateSection_follows plain_nil (allowed_nil s)

theorem balanced_deactivate (s : Nat) (found : Found) : Balanced (deactivate s found) :=
  ((balanced_deactivateSection s found).locked _).ite (balanced_deactivateSection s found)

theorem cleanup_eq : cleanup s found contexts = [] := by
  rw [cleanup, imageRequestDestroy, append_eq_nil_iff]
  exact ⟨rfl, flatMap_eq_nil_iff.mpr fun context _ => rfl⟩

theorem destroy_follows (s : Nat) (found : Found) (after : State) (contexts : List Nat) :
    Follows Allowed [] (destroy s found after contexts) ∧
      heldAfter [] (destroy s found after contexts) = [] := by
  have hnil : (match after with
      | .setup | .deactivated => cleanup s found contexts
      | _ => []) = [] := by
    split
    · exact cleanup_eq
    · exact cleanup_eq
    · rfl
  unfold destroy
  rw [hnil]
  constructor
  · rw [Lib.follows_append, balanced_deactivate]; exact ⟨deactivate_follows, allowed_nil s, trivial⟩
  · exact (balanced_deactivate s found).append (balanced_nil.locked _) []

theorem onSubscriptionDestroyed_follows (s : Nat) (found : Found) (contexts : List Nat) :
    Follows Allowed [] (onSubscriptionDestroyed s found contexts) ∧
      heldAfter [] (onSubscriptionDestroyed s found contexts) = [] := by
  have hplain : Plain [.mCreateDestroyLock s] := plain_nil.cons (.inr ⟨s, rfl⟩)
  rw [onSubscriptionDestroyed, cleanup_eq]
  constructor
  · rw [Lib.follows_locked]
    refine ⟨allowed_nil s, ?_⟩
    split
    · trivial
    · trivial
    · exact activate_follows hplain
        ⟨fun r hr => absurd hr (hplain.notLock r), .inl mem_cons_self⟩
    · trivial
  · refine Balanced.locked ?_ _ []
    split
    · exact balanced_nil
    · exact balanced_nil
    · exact balanced_activate _ _
    · exact balanced_nil

theorem Action.follows (action : Action) :
    Follows Allowed [.mMsgQueue action.throttle] action.ops := by
  cases action with
  | createAction s found =>
    exact createAction_follows (plain_nil.cons (.inl rfl)) (allowed_default s)
  | requestAction r =>
    exact requestAction_follows
      ⟨fun r' hr' => absurd (mem_singleton.mp hr') (by simp), .inl mem_cons_self⟩

theorem Action.balanced (action : Action) : Balanced action.ops := by
  cases action with
  | createAction s found => exact balanced_createAction s found
  | requestAction r => exact balanced_requestAction r

theorem sendQueuedMessage_follows (throttle : ThrottleInstance) (action : Option Action) :
    Follows Allowed [] (sendQueuedMessage throttle action) ∧
      heldAfter [] (sendQueuedMessage throttle action) = [] := by
  unfold sendQueuedMessage
  constructor
  · rw [Lib.follows_locked]
    refine ⟨plain_nil.throttle _, ?_⟩
    split
    · next action =>
      split
      · next hthrottle => exact hthrottle ▸ action.follows
      · trivial
    · trivial
  · refine Balanced.locked ?_ _ []
    split
    · next action => exact action.balanced.ite balanced_nil
    · exact balanced_nil

/-- **Every call keeps the discipline** and releases what it takes. -/
theorem Call.follows (c : Call) : Follows Allowed [] c.ops ∧ heldAfter [] c.ops = [] := by
  cases c with
  | activate s found =>
    exact ⟨activate_follows plain_nil (allowed_nil s), balanced_activate s found []⟩
  | deactivate s found => exact ⟨deactivate_follows, balanced_deactivate s found []⟩
  | destroy s found after contexts => exact destroy_follows s found after contexts
  | onSubscriptionDestroyed s found contexts =>
    exact onSubscriptionDestroyed_follows s found contexts
  | sendQueuedMessage throttle action => exact sendQueuedMessage_follows throttle action
  | sendRequest r throttled rated =>
    exact ⟨sendRequest_follows (plain_nil.throttle _) throttled rated,
      balanced_sendRequest r throttled rated []⟩
  | stopWaitForResponse r pending =>
    exact ⟨stopWaitForResponse_follows (plain_nil.throttle _) pending,
      balanced_stopWaitForResponse r pending []⟩

/-! ## Runs -/

variable {ι : Type} {t : ι → Thread Lock}

structure Disciplined (t : ι → Thread Lock) : Prop where
  exclusive : Exclusive t
  follows : ∀ i, Follows Allowed (t i).held (t i).rest
  apart : Apart bothOrders t

theorem disciplined_start (calls : ι → List Call) : Disciplined (start calls) where
  exclusive i j l hl := absurd hl (by simp [start])
  follows i := Lib.follows_flatMap fun c _ => c.follows
  apart i j _ l m _ hcross := absurd (Lib.mem_of_under hcross.1) (by simp [start])

/-- How far a thread has come in the order of the locks. -/
def rank (t : ι → Thread Lock) (i : ι) : Nat :=
  match (t i).asks with
  | some (.mMsgQueue .default) => 0
  | some (.mCreateDestroyLock _) => 1
  | some (.mMsgQueue .recap) => 2
  | _ => 3

section

variable (h : Disciplined t)

include h

theorem Disciplined.allowed {i : ι} (hasks : (t i).asks = some l) : Allowed (t i).held l := by
  obtain ⟨rest, hrest⟩ := Lib.Thread.rest_of_asks hasks
  have hfollows := h.follows i
  rw [hrest] at hfollows
  exact hfollows.1

/-- A thread that is waited for waits at a lock before that of the one it waits for, unless they
cross. -/
theorem Disciplined.rank_lt {a i j k : ι} (hai : WaitsFor t a i)
    (hij : WaitsFor t i j) (hjk : WaitsFor t j k) : rank t i < rank t j := by
  obtain ⟨-, m, -, hm⟩ := hai
  obtain ⟨hji, l, hasks, hl⟩ := hij
  obtain ⟨hkj, l', hasks', hl'⟩ := hjk
  -- what is asked for is not held by the one that asks
  have hnot : l ∉ (t i).held := fun hmem => hji (h.exclusive j i l hl hmem)
  have hnot' : l' ∉ (t j).held := fun hmem => hkj (h.exclusive k j l' hl' hmem)
  obtain ⟨hlocks, hallowed⟩ := h.allowed hasks
  obtain ⟨hlocks', hallowed'⟩ := h.allowed hasks'
  have hnext := hallowed.resolve_left hnot
  have hnext' := hallowed'.resolve_left hnot'
  unfold rank
  rw [hasks, hasks']
  cases l with
  | mMsgQueue throttle =>
    cases throttle with
    | default =>
      cases l' with
      | mMsgQueue throttle' =>
        cases throttle' with
        | default => exact absurd hl hnot'
        | recap => exact Nat.succ_pos 1
      | mCreateDestroyLock s => exact Nat.succ_pos 0
      | mLock r => exact Nat.succ_pos 2
    | recap =>
      cases l' with
      | mMsgQueue throttle' =>
        cases throttle' with
        | default =>
          obtain ⟨s, heq⟩ := hnext' _ hl
          cases heq
        | recap => exact absurd hl hnot'
      | mCreateDestroyLock s => cases hnext' _ hl
      | mLock r => exact Nat.lt_succ_self 2
  | mCreateDestroyLock s =>
    cases l' with
    | mMsgQueue throttle' =>
      cases throttle' with
      | default =>
        -- they cross at the subscription and the list
        obtain ⟨rest, hrest⟩ := Lib.Thread.rest_of_asks hasks
        obtain ⟨rest', hrest'⟩ := Lib.Thread.rest_of_asks hasks'
        have hfirst :
            under (.mCreateDestroyLock s) (.mMsgQueue .default) (t j).held (t j).rest := by
          rw [hrest']; simp [under, hl]
        have hheld : .mMsgQueue .default ∈ (t i).held := hnext m hm ▸ hm
        have hsecond :
            under (.mMsgQueue .default) (.mCreateDestroyLock s) (t i).held (t i).rest := by
          rw [hrest]; simp [under, hheld]
        exact absurd ⟨hfirst, hnot', hsecond⟩ (h.apart j i hji _ _ rfl)
      | recap => exact Nat.lt_succ_self 1
    | mCreateDestroyLock s' => cases hnext' _ hl
    | mLock r => exact Nat.lt_succ_of_lt (Nat.lt_succ_self 1)
  | mLock r =>
    -- a request is locked under its throttle, which only one of them holds
    exact absurd (h.exclusive j i _ (hlocks' r hl) hnext) hji

theorem Disciplined.not_deadlocked : ¬ Deadlocked t := by
  rintro ⟨i, hcycle⟩
  exact Lib.no_cycle (rank t) (fun _ _ _ _ => h.rank_lt) i hcycle

end

variable [Fintype ι] [DecidableEq ι]

/-- **No deadlock.**  In every run in which no two threads come to cross at a subscription and the
list of the default throttle, no threads wait for each other in a cycle. -/
theorem no_deadlock_of_runs (calls : ι → List Call) {t : ι → Thread Lock}
    (ht : Runs lockStep (TakesApart bothOrders) (start calls) t) : ¬ Deadlocked t := by
  refine (ht.invariant (disciplined_start calls) fun t i t' h htakes hstep => ?_).not_deadlocked
  exact ⟨h.exclusive.step hstep, Lib.follows_step h.follows hstep,
    h.apart.step h.exclusive htakes hstep⟩

/-- A thread activates a subscription, and another one deactivates it. -/
def activating (first : Bool) : List Call :=
  if first then [.activate 0 ⟨.setup, false, true, true, true, false, false, false, false⟩]
  else [.deactivate 0 ⟨.setup, false, true, true, true, false, false, false, false⟩]

/-- One after the other they come to an end. -/
theorem no_deadlock_of_runs_activating : ∃ t, [true, true, true, true, false, false, false,
    false].foldlM lockStep (start activating) = some t ∧ ¬ Deadlocked t := by
  have hchecked : ∃ t, [true, true, true, true, false, false, false, false].foldlM
      (fun t i => if TakesApart bothOrders t i then lockStep t i else none) (start activating) =
        some t := ⟨_, rfl⟩
  obtain ⟨t, ht⟩ := hchecked
  exact ⟨t, (Lib.checked_split ht).1, no_deadlock_of_runs activating (Runs.init.checked _ ht)⟩

/-- When one has the subscription and the other one the list, neither goes on. -/
theorem not_no_deadlock : ¬ ∀ (calls : Bool → List Call) (t : Bool → Thread Lock),
    Reachable lockStep (start calls) t → ¬ Deadlocked t := by
  intro h
  obtain ⟨t, ht, hheld, hheld', hasks, hasks'⟩ : ∃ t,
      [true, false].foldlM lockStep (start activating) = some t ∧
      (t true).held = [.mCreateDestroyLock 0] ∧ (t false).held = [.mMsgQueue .default] ∧
      (t true).asks = some (.mMsgQueue .default) ∧ (t false).asks = some (.mCreateDestroyLock 0) :=
    ⟨_, rfl, rfl, rfl, rfl, rfl⟩
  refine h activating t (Runs.init.steps (fun _ _ _ => trivial) ht) ⟨true, ?_⟩
  have hthere : WaitsFor t true false :=
    ⟨by simp, _, hasks, hheld' ▸ mem_singleton_self _⟩
  have hback : WaitsFor t false true :=
    ⟨by simp, _, hasks', hheld ▸ mem_singleton_self _⟩
  exact (Relation.TransGen.single hthere).tail hback

end Mama.Locking
