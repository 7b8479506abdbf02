import OpenMama.Common.WtableMap

/-!
# `endpointPool`: who is registered for a topic

A pool keeps a table of topics; the data of a topic is the address of a table of its own, from
identifiers to what was handed over with them, which may be null.  `endpointPool_getRegistered`
collects the endpoints of a topic in one buffer of the pool.  A write behind the end of the buffer
is `none`.

The application gives a topic and an identifier that are not null.  `word` is the size of a pointer.
-/

namespace Mama

namespace Qpid

open Common

/-- What is found in the buffer: what was handed over, or the identifier where that is null. -/
inductive Endpoint (K D : Type)
  | closure (data : D)
  | identifier (key : K)
  deriving DecidableEq

def Endpoint.of {K D : Type} (data : Option D) (key : K) : Endpoint K D :=
  match data with
  | some d => .closure d
  | none => .identifier key

/-- `endpointPoolImpl`, with the tables of the topics that were allocated, and the number of bytes
that the buffer really has. -/
structure EndpointPool (K D : Type) where
  mContainer : Wtable K Nat
  mBuffer : Nat → Option (Endpoint K D)
  mBufferOffset : Nat
  mBufferLimit : Nat
  allocated : Nat
  tables : Nat → Option (Wtable K D)
  top : Nat

namespace EndpointPool

def bufferChunkSize : Nat := 1024

variable {K D : Type} [DecidableEq K]

/-- `endpointPool_create`. -/
def create : EndpointPool K D where
  mContainer := .create 10
  mBuffer _ := none
  mBufferOffset := 0
  mBufferLimit := bufferChunkSize
  allocated := bufferChunkSize
  tables _ := none
  top := 0

section

variable (hash : K → Nat)

/-- `endpointPool_registerWithIdentifier`. -/
def registerWithIdentifier (p : EndpointPool K D) (topic identifier : K) (data : Option D) :
    Option (EndpointPool K D) := do
  match ← p.mContainer.lookup hash topic with
  | none =>
    let (_, consumers) ← (Wtable.create 1).insert hash identifier data
    let (_, container) ← p.mContainer.insert hash topic (some p.top)
    some { p with
      mContainer := container
      tables := Function.update p.tables p.top (some consumers)
      top := p.top + 1 }
  | some a =>
    let registered ← p.tables a
    match ← registered.lookup hash identifier with
    | none =>
      let (_, registered) ← registered.insert hash identifier data
      some { p with tables := Function.update p.tables a (some registered) }
    | some _ => some p

/-- `endpointPool_registerWithoutIdentifier`, with the identifier that it makes; `printed` is what
`%p` prints. -/
def registerWithoutIdentifier (printed : D → K) (p : EndpointPool K D) (topic : K)
    (data : Option D) : Option (EndpointPool K D × Option K) := do
  match data with
  | none => some (p, none)
  | some d =>
    let p ← p.registerWithIdentifier hash topic (printed d) data
    some (p, some (printed d))

/-- `endpointPool_unregister`. -/
def unregister (p : EndpointPool K D) (topic identifier : K) : Option (EndpointPool K D) := do
  match ← p.mContainer.lookup hash topic with
  | none => some p
  | some a =>
    let registered ← p.tables a
    let (_, registered) ← registered.remove hash identifier
    some { p with tables := Function.update p.tables a (some registered) }

/-- The loop of `endpointPoolImpl_extendBuffer`. -/
def extend (newSize size : Nat) : Nat :=
  if newSize < size then extend (newSize + bufferChunkSize) size else newSize
termination_by size - newSize
decreasing_by
  unfold bufferChunkSize
  omega

/-- `endpointPoolImpl_extendBuffer`.  The limit stays what it was. -/
def extendBuffer (p : EndpointPool K D) (size : Nat) : EndpointPool K D :=
  if size ≤ p.mBufferLimit then p else { p with allocated := extend p.mBufferLimit size }

/-- `endpointPoolImpl_appendEachEndpoint`. -/
def appendEachEndpoint (word : Nat) (p : EndpointPool K D) (data : Option D) (key : K) :
    Option (EndpointPool K D) :=
  let required := word * p.mBufferOffset
  let p := if required > p.mBufferLimit then p.extendBuffer required else p
  -- the slot at the offset has to be in the buffer
  if word * (p.mBufferOffset + 1) ≤ p.allocated then
    some { p with
      mBuffer := Function.update p.mBuffer p.mBufferOffset (some (.of data key))
      mBufferOffset := p.mBufferOffset + 1 }
  else none

/-- What `endpointPool_getRegistered` returns: the count, and the buffer unless it is null. -/
structure Registered (K D : Type) where
  count : Nat
  endpoints : Option (Nat → Option (Endpoint K D))

def appendCallback (word : Nat) : Wtable.Callback K D (Option (EndpointPool K D)) :=
  fun p t data key => (p.bind fun p => p.appendEachEndpoint word data key, t)

/-- `endpointPool_getRegistered`. -/
def getRegistered (wide : Nat → BitVec 32) (word : Nat) (p : EndpointPool K D) (topic : K) :
    Option (EndpointPool K D × Registered K D) := do
  match ← p.mContainer.lookup hash topic with
  | none => some (p, ⟨0, none⟩)
  | some a =>
    let registered ← p.tables a
    let it ← registered.forEach wide (appendCallback word) (some { p with mBufferOffset := 0 })
    let p ← it.closure
    some (p, ⟨p.mBufferOffset, some p.mBuffer⟩)

/-- `endpointPoolImpl_checkEndpointExists`. -/
def checkEndpointExists [DecidableEq D] (matchWith : D) : Wtable.Callback K D Int :=
  fun result t data _ => (if data = some matchWith then 1 else result, t)

/-- `endpointPool_isRegistedByContent`.  The result of the iteration is not used. -/
def isRegistedByContent [DecidableEq D] (wide : Nat → BitVec 32) (p : EndpointPool K D) (topic : K)
    (content : Option D) : Option Int := do
  match content with
  | none => some 5 -- `MAMA_STATUS_NULL_ARG`
  | some d =>
    match ← p.mContainer.lookup hash topic with
    | none => some 0
    | some a =>
      let registered ← p.tables a
      let _ ← registered.forEach wide (checkEndpointExists d) 0
      some 1

end

end EndpointPool

/-! ## Calls -/

inductive Call (K D : Type)
  | registerWithIdentifier (topic identifier : K) (data : Option D)
  | registerWithoutIdentifier (topic : K) (data : Option D)
  | unregister (topic identifier : K)
  | getRegistered (topic : K)
  | isRegistedByContent (topic : K) (content : Option D)

inductive Answer (K D : Type)
  | done
  | identifier (key : Option K)
  | registered (result : EndpointPool.Registered K D)
  | isRegisted (result : Int)

/-- The surroundings of a pool: how strings are hashed and pointers printed, what a loop bound
beyond an `int` is taken for, and the size of a pointer. -/
structure Platform (K D : Type) where
  hash : K → Nat
  printed : D → K
  wide : Nat → BitVec 32
  word : Nat

variable {K D : Type} [DecidableEq K] [DecidableEq D]

def EndpointPool.call (q : Platform K D) (p : EndpointPool K D) :
    Call K D → Option (EndpointPool K D × Answer K D)
  | .registerWithIdentifier topic identifier data => do
    let p ← p.registerWithIdentifier q.hash topic identifier data
    some (p, .done)
  | .registerWithoutIdentifier topic data => do
    let (p, identifier) ← p.registerWithoutIdentifier q.hash q.printed topic data
    some (p, .identifier identifier)
  | .unregister topic identifier => do
    let p ← p.unregister q.hash topic identifier
    some (p, .done)
  | .getRegistered topic => do
    let (p, result) ← p.getRegistered q.hash q.wide q.word topic
    some (p, .registered result)
  | .isRegistedByContent topic content => do
    let result ← p.isRegistedByContent q.hash q.wide topic content
    some (p, .isRegisted result)

end Qpid

end Mama
