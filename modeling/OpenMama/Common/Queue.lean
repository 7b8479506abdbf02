import Mathlib.Algebra.Order.Ring.Int
import OpenMama.Lib.Runs

/-!
# The event queue

The items of a `wombatQueue` are linked between two dummy nodes; the items that are free
are linked one after the other.  A semaphore counts what the consumers may take.  A
consumer takes the semaphore first and the lock later, and `unblock` sets a flag and posts
the semaphore without the lock, so each of these is a step of its own.  A step is `none`
where it is not possible, or where it would follow a null pointer.
-/

namespace Common.WombatQueue

/-- A node of the queue: a dummy, or an allocated item. -/
inductive Node
  | head
  | tail
  | item (n : Nat)
  deriving DecidableEq, Repr

structure Payload where
  mCb : Nat
  mData : Nat
  mClosure : Nat
  deriving DecidableEq, Repr

/-- The threads that have taken the semaphore but not yet the lock. -/
structure Waiters where
  /-- In `dispatch`, before it looks at the flag. -/
  dispatch : Nat := 0
  /-- In `dispatch`, the flag was set, and is not yet cleared by this thread. -/
  unblocked : Nat := 0
  /-- In `dispatch` past the flag, or in `timedDispatch`. -/
  dequeue : Nat := 0
  poll : Nat := 0
  flush : Nat := 0
  deriving DecidableEq, Repr

def Waiters.total (w : Waiters) : Nat := w.dispatch + w.unblocked + w.dequeue + w.poll + w.flush

/-- `wombatQueueImpl` with its items.  The last fields record what happened. -/
structure Queue where
  mSem : Nat := 0
  mUnblocking : Bool := false
  mMaxSize : Nat
  mChunkSize : Nat
  mIterator : Option Node := some .head
  mNext : Node → Option Node := fun
    | .item _ => none
    | _ => some .tail
  mPrev : Node → Option Node := fun
    | .item _ => none
    | _ => some .head
  /-- `mFirstFree.mNext`. -/
  firstFree : Option Node := none
  payload : Node → Payload := fun _ => ⟨0, 0, 0⟩
  allocated : Nat := 0
  waiters : Waiters := {}
  /-- The threads in `unblock` that have set the flag and not yet posted. -/
  unblocking : Nat := 0
  unblocks : Nat := 0
  returns : Nat := 0
  enqueued : List Payload := []
  delivered : List Payload := []

variable (q : Queue)

def setNext (a : Node) (b : Option Node) : Queue :=
  { q with mNext := Function.update q.mNext a b }

def setPrev (a : Node) (b : Option Node) : Queue :=
  { q with mPrev := Function.update q.mPrev a b }

/-- `wombatQueueImpl_allocChunk`: the sum of an `int` and an `unsigned int` is unsigned. -/
def allocChunk (items : Nat) : Queue :=
  if q.mMaxSize < (q.mSem + items) % 2 ^ 32 then
    q
  else
    let last := q.allocated + items - 1
    { q with
      firstFree := some (.item q.allocated)
      mNext := fun
        | .item n =>
          if q.allocated ≤ n && n < last then some (.item (n + 1))
          else if n = last then none
          else q.mNext (.item n)
        | a => q.mNext a
      mPrev := fun
        | .item n =>
          if q.allocated < n && n ≤ last then some (.item (n - 1))
          else if n = q.allocated then none
          else q.mPrev (.item n)
        | a => q.mPrev a
      allocated := q.allocated + items }

/-- `WOMBAT_QUEUE_MAX_SIZE`. -/
def maxSizeDefault : Nat := 2147483647

/-- `WOMBAT_QUEUE_CHUNK_SIZE`. -/
def chunkSizeDefault : Nat := 64

/-- `wombatQueue_allocate` and `wombatQueue_create`: a zero stands for the default. -/
def create (maxSize initialSize growBySize : Nat) : Queue :=
  allocChunk
    { mMaxSize := if maxSize = 0 then maxSizeDefault else maxSize
      mChunkSize := if growBySize = 0 then chunkSizeDefault else growBySize }
    (if initialSize = 0 then chunkSizeDefault else initialSize)

def refill : Queue := if q.firstFree.isNone then allocChunk q q.mChunkSize else q

/-- An item is taken from the free list and filled in, `none` if there is no item. -/
def takeFree (p : Payload) : Option Node × Queue :=
  let q := refill q
  match q.firstFree with
  | none => (none, q)
  | some item =>
    (some item, { q with
      firstFree := q.mNext item
      payload := Function.update q.payload item p })

def linkBetween (item before after : Node) : Queue :=
  setPrev (setNext (setPrev (setNext q item (some after)) item (some before)) before (some item))
    after (some item)

/-- `wsem_post`. -/
def post : Queue := { q with mSem := q.mSem + 1 }

/-- `wombatQueue_enqueue`, which returns `WOMBAT_QUEUE_FULL` where there is no item. -/
def enqueue (p : Payload) : Option Queue :=
  match takeFree q p with
  | (none, q') => some q'
  | (some item, q') => do
    let before ← q'.mPrev .tail
    let q := linkBetween q' item before .tail
    some { post q with enqueued := q.enqueued ++ [p] }

/-- `wombatQueue_insertAfter`. -/
def insertAfter (p : Payload) : Option Queue :=
  let q := if q.mIterator = some .tail then { q with mIterator := some .head } else q
  match takeFree q p with
  | (none, q') => some q'
  | (some item, q') => do
    let it ← q'.mIterator
    let after ← q'.mNext it
    some (post (linkBetween q' item it after))

/-- `wombatQueue_insertBefore`. -/
def insertBefore (p : Payload) : Option Queue :=
  let q := if q.mIterator = some .head then { q with mIterator := some .tail } else q
  match takeFree q p with
  | (none, q') => some q'
  | (some item, q') => do
    let it ← q'.mIterator
    let before ← q'.mPrev it
    some (post (linkBetween q' item before it))

/-- `WQ_REMOVE`, and the same lines of `wombatQueue_remove`: a node is unlinked and put on the
free list. -/
def unlink (ele : Node) : Option Queue := do
  let before ← q.mPrev ele
  let q := setNext q before (q.mNext ele)
  let after ← q.mNext ele
  let q := setPrev q after (q.mPrev ele)
  some { setNext q ele q.firstFree with firstFree := some ele }

/-- The first item is unlinked; `poll` and `flush` do not look whether there is one. -/
def removeHead : Option Queue := do
  let ele ← q.mNext .head
  let q ← unlink q ele
  some { q with delivered := q.delivered ++ [q.payload ele] }

/-- `wombatQueue_remove`. -/
def remove : Option Queue :=
  if q.mIterator = some .head || q.mIterator = some .tail then
    some q
  else do
    let ele ← q.mIterator
    unlink { q with mIterator := q.mNext ele } ele

/-- `wombatQueue_replace`. -/
def replace (mData mClosure : Nat) : Option Queue :=
  if q.mIterator = some .head || q.mIterator = some .tail then
    some q
  else do
    let ele ← q.mIterator
    let p := { q.payload ele with mData := mData, mClosure := mClosure }
    some { q with payload := Function.update q.payload ele p }

/-- `wombatQueue_next`. -/
def next : Option Queue := do
  let it := q.mNext (← q.mIterator)
  some { q with mIterator := if it = some .tail then q.mPrev .tail else it }

/-- `wombatQueue_prev`. -/
def prev : Option Queue := do
  let it := q.mPrev (← q.mIterator)
  some { q with mIterator := if it = some .head then q.mNext .head else it }

inductive Consumer
  | dispatch
  | timedDispatch
  | poll
  | flush
  deriving DecidableEq, Repr

inductive Label
  | enqueue (p : Payload)
  | wait (consumer : Consumer)
  /-- A dispatch looks at `mUnblocking`. -/
  | readFlag
  | clearFlag
  | dequeue
  | poll
  | flush
  /-- The two statements of `unblock`. -/
  | setFlag
  | postUnblock
  | insertAfter (p : Payload)
  | insertBefore (p : Payload)
  | remove
  | replace (mData mClosure : Nat)
  | next
  | prev
  /-- `wombatQueue_begin` and `wombatQueue_end`. -/
  | toBegin
  | toEnd
  deriving DecidableEq, Repr

def isEmpty : Bool := q.mNext .head = some .tail

def step (q : Queue) : Label → Option Queue
  | .enqueue p => enqueue q p
  | .wait consumer =>
    if 0 < q.mSem then
      let w := q.waiters
      some { q with
        mSem := q.mSem - 1
        waiters := match consumer with
          | .dispatch => { w with dispatch := w.dispatch + 1 }
          | .timedDispatch => { w with dequeue := w.dequeue + 1 }
          | .poll => { w with poll := w.poll + 1 }
          | .flush => { w with flush := w.flush + 1 } }
    else
      none
  | .readFlag =>
    let w := q.waiters
    if 0 < w.dispatch then
      some { q with
        waiters := if q.mUnblocking then
            { w with dispatch := w.dispatch - 1, unblocked := w.unblocked + 1 }
          else
            { w with dispatch := w.dispatch - 1, dequeue := w.dequeue + 1 } }
    else
      none
  | .clearFlag =>
    let w := q.waiters
    if 0 < w.unblocked then
      some { q with
        mUnblocking := false
        waiters := { w with unblocked := w.unblocked - 1 }
        returns := q.returns + 1 }
    else
      none
  | .dequeue =>
    let w := q.waiters
    if 0 < w.dequeue then
      let q := { q with waiters := { w with dequeue := w.dequeue - 1 } }
      if isEmpty q then some { q with returns := q.returns + 1 } else removeHead q
    else
      none
  | .poll =>
    let w := q.waiters
    if 0 < w.poll then removeHead { q with waiters := { w with poll := w.poll - 1 } } else none
  | .flush =>
    let w := q.waiters
    if 0 < w.flush then removeHead { q with waiters := { w with flush := w.flush - 1 } } else none
  | .setFlag => some { q with mUnblocking := true, unblocking := q.unblocking + 1 }
  | .postUnblock =>
    if 0 < q.unblocking then
      some { post q with unblocking := q.unblocking - 1, unblocks := q.unblocks + 1 }
    else
      none
  | .insertAfter p => insertAfter q p
  | .insertBefore p => insertBefore q p
  | .remove => remove q
  | .replace mData mClosure => replace q mData mClosure
  | .next => next q
  | .prev => prev q
  | .toBegin => some { q with mIterator := some .head }
  | .toEnd => some { q with mIterator := some .tail }

end Common.WombatQueue
