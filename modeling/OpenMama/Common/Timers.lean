import Mathlib.Data.List.Sort
import OpenMama.Lib.Runs

/-!
# The timer heap

The timers are ordered by the time they are due.  A dispatch thread waits in `select` for
the earliest of them or for a byte in the socket pair, and then runs the callbacks that
are due, holding the lock.  A step is what one thread does while it holds the lock, or one
of the dispatch thread's steps between; `gettimeofday` may return any time.

A thread that finds the socket pair full in `createTimer` goes on trying with the lock
held; only then is there a state inside of `createTimer`.
-/

namespace Common.Timers

/-- A timer: the time that it is due, and what tells it from the others. -/
abbrev Timer := Int × Nat

/-- `orderedTimeRBTreeCmp`. -/
def le (x y : Timer) : Prop := x.1 < y.1 ∨ (x.1 = y.1 ∧ x.2 ≤ y.2)

instance : DecidableRel le := fun _ _ => inferInstanceAs (Decidable (_ ∨ _))

/-- The last argument of `select`: none, or a time from `now` on. -/
inductive Wait
  | forever
  | upTo (now timeout : Int)
  deriving DecidableEq, Repr

/-- What `select` returned. -/
inductive Woken
  | readable
  | timedOut
  | interrupted
  deriving DecidableEq, Repr

inductive Dispatcher
  | starting
  /-- In `select`, or about to call it. -/
  | selecting (wait : Wait)
  | woken (result : Woken)
  /-- It holds the lock, `now` is when its pass began. -/
  | dispatching (now : Int)
  /-- In the callback of a timer that was due at `timeout`. -/
  | callback (now timeout : Int)
  deriving DecidableEq, Repr

/-- Who calls `createTimer` or `destroyTimer`: some other thread, or a callback. -/
inductive Caller
  | thread
  | callback
  deriving DecidableEq, Repr

inductive Event
  /-- A callback was called in a pass that began at `now`. -/
  | fired (pass : Nat) (timer : Timer) (now : Int)
  /-- `destroyTimer` returned. -/
  | destroyed (id : Nat)
  deriving DecidableEq, Repr

/-- `timerHeapImpl_`. -/
structure Heap where
  mTimeTree : List Timer := []
  made : Nat := 0
  unread : Nat := 0
  dispatcher : Dispatcher := .starting
  /-- In `createTimer`, holding the lock, its byte not written. -/
  writing : Option Caller := none
  passes : Nat := 0
  log : List Event := []

/-- The lock is recursive: a callback runs with the lock that the dispatch thread holds. -/
def Heap.mayLock (s : Heap) (caller : Caller) : Bool :=
  s.writing.isNone && match s.dispatcher, caller with
    | .callback .., .callback => true
    | .callback .., .thread => false
    | .dispatching _, _ => false
    | _, .callback => false
    | _, .thread => true

def Heap.kickPipe (s : Heap) (timeout : Int) : Bool :=
  match s.mTimeTree.head? with
  | none => true
  | some first => timeout ≤ first.1

inductive Label
  /-- `createTimer`, for a timer due at `timeout`. -/
  | create (caller : Caller) (timeout : Int)
  /-- A `write` of the byte is tried again. -/
  | write
  /-- `destroyTimer`. -/
  | destroy (caller : Caller) (id : Nat)
  | start (now : Int)
  /-- `select` returns. -/
  | wake (result : Woken)
  | drain (now : Int)
  | fire
  | returned
  /-- The next timeout is found and the lock is given back. -/
  | unlock (now : Int)
  deriving DecidableEq, Repr

/-- The timeout for `select`. -/
def waitFor (tree : List Timer) (now : Int) : Wait :=
  match tree.head? with
  | none => .forever
  | some first => .upTo now (if now < first.1 then first.1 - now else 0)

/-- One step, with a socket pair that holds `capacity` bytes. -/
def step (capacity : Nat) (s : Heap) : Label → Option Heap
  | .create caller timeout =>
    if s.mayLock caller then
      let s' := { s with
        mTimeTree := s.mTimeTree.orderedInsert le (timeout, s.made)
        made := s.made + 1 }
      if s.kickPipe timeout then
        if s.unread < capacity then
          some { s' with unread := s.unread + 1 }
        else
          some { s' with writing := some caller }
      else
        some s'
    else
      none
  | .write =>
    if s.writing.isSome && s.unread < capacity then
      some { s with unread := s.unread + 1, writing := none }
    else
      none
  | .destroy caller id =>
    if s.mayLock caller && id < s.made then
      some { s with
        mTimeTree := s.mTimeTree.filter (·.2 ≠ id)
        log := .destroyed id :: s.log }
    else
      none
  | .start now =>
    if s.dispatcher = .starting && s.writing.isNone then
      some { s with dispatcher := .selecting (waitFor s.mTimeTree now) }
    else
      none
  | .wake result =>
    match s.dispatcher with
    | .selecting wait =>
      if (result = .readable && s.unread = 0) || (result = .timedOut && wait = .forever) then
        none
      else
        some { s with dispatcher := .woken result }
    | _ => none
  | .drain now =>
    match s.dispatcher with
    | .woken result =>
      if s.writing.isNone then
        some { s with
          unread := if result = .readable then 0 else s.unread
          dispatcher := .dispatching now
          passes := s.passes + 1 }
      else
        none
    | _ => none
  | .fire =>
    match s.dispatcher, s.mTimeTree with
    | .dispatching now, first :: rest =>
      if first.1 ≤ now then
        some { s with
          mTimeTree := rest
          dispatcher := .callback now first.1
          log := .fired s.passes first now :: s.log }
      else
        none
    | _, _ => none
  | .returned =>
    match s.dispatcher with
    | .callback now _ =>
      if s.writing.isNone then some { s with dispatcher := .dispatching now } else none
    | _ => none
  | .unlock now' =>
    match s.dispatcher with
    | .dispatching now =>
      if s.mTimeTree.head?.all (now < ·.1) then
        some { s with dispatcher := .selecting (waitFor s.mTimeTree now') }
      else
        none
    | _ => none

end Common.Timers
