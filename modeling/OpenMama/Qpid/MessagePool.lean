import Mathlib.Logic.Function.Basic

/-!
# `qpidMsgPool`: the message nodes of a transport

A pool links its nodes in a free list, and the nodes that are in use in an open list, which is
linked both ways.  A null pointer that is followed is `none`.

Nodes are never given back to the system while the transport is there; `top` is the number of nodes
that were allocated.
-/

namespace Mama

namespace Qpid

/-! ## Messages -/

/-- An atom of proton.  What a list contains is a parameter. -/
inductive Atom (F : Type)
  | null
  | ubyte (n : UInt8)
  | string (s : List UInt8)
  | binary (bytes : List UInt8)
  | list (fields : F)
  deriving DecidableEq

/-- `pn_message_t`: the subject, the first atom of the body, and the atoms in the container of the
properties.  Strings that are used as keys have a type of their own. -/
structure PnMessage (K F : Type) where
  subject : Option K
  body : Atom F
  properties : List (Atom F)
  deriving DecidableEq

/-- `pn_message`. -/
def PnMessage.new {K F : Type} : PnMessage K F := ⟨none, .null, []⟩

/-- `qpidMsgType`. -/
inductive MsgType
  | pubSub
  | inboxRequest
  | inboxResponse
  | subRequest
  | terminate
  | other (n : UInt8)
  deriving DecidableEq

def MsgType.ofByte (n : UInt8) : MsgType :=
  if n = 0 then .pubSub
  else if n = 1 then .inboxRequest
  else if n = 2 then .inboxResponse
  else if n = 3 then .subRequest
  else if n = 0xff then .terminate
  else .other n

/-- `pn_data_get_ubyte`, which is 0 for anything else. -/
def Atom.getUbyte {F : Type} : Option (Atom F) → UInt8
  | some (.ubyte n) => n
  | _ => 0

/-- The type that the first entry of the properties gives. -/
def PnMessage.msgType {K F : Type} (m : PnMessage K F) : MsgType :=
  .ofByte (Atom.getUbyte m.properties.head?)

/-! ## Nodes -/

/-- `qpidMsgNode`.  A subscription is named by its address. -/
structure MsgNode (K F : Type) where
  mMsg : PnMessage K F
  mNext : Option Nat
  mPrev : Option Nat
  mMsgType : MsgType
  mQpidSubscription : Option Nat

/-- `qpidMsgPool`. -/
structure MsgPool (K F : Type) where
  nodes : Nat → MsgNode K F
  top : Nat
  mFreeList : Option Nat
  mOpenList : Option Nat
  mNumMsgs : Nat
  mNumFree : Nat

namespace MsgPool

variable {K F : Type}

def modify (p : MsgPool K F) (n : Nat) (f : MsgNode K F → MsgNode K F) : MsgPool K F :=
  { p with nodes := Function.update p.nodes n (f (p.nodes n)) }

def setNext (p : MsgPool K F) (n : Nat) (next : Option Nat) : MsgPool K F :=
  p.modify n fun node => { node with mNext := next }

def setPrev (p : MsgPool K F) (n : Nat) (prev : Option Nat) : MsgPool K F :=
  p.modify n fun node => { node with mPrev := prev }

def setMsg (p : MsgPool K F) (n : Nat) (m : PnMessage K F) : MsgPool K F :=
  p.modify n fun node => { node with mMsg := m }

def setMsgType (p : MsgPool K F) (n : Nat) (type : MsgType) : MsgPool K F :=
  p.modify n fun node => { node with mMsgType := type }

def setSubscription (p : MsgPool K F) (n sub : Nat) : MsgPool K F :=
  p.modify n fun node => { node with mQpidSubscription := some sub }

/-- A node as `malloc` gives it, with its message.  What is in its other fields is read only after
it was written. -/
def newNode : MsgNode K F := ⟨.new, none, none, .pubSub, none⟩

/-- One round of the loop of `qpidBridgeMamaTransportImpl_extendMessagePool`, with `currentNode`. -/
def extendRound (s : MsgPool K F × Option Nat) (_ : Nat) : MsgPool K F × Option Nat :=
  let (p, currentNode) := s
  let nextNode := p.top
  let p := { p with nodes := Function.update p.nodes nextNode newNode, top := p.top + 1 }
  let p := match currentNode with
    | none => { p with mFreeList := some nextNode } -- the first round
    | some current => p.setNext current (some nextNode)
  ({ p with mNumFree := p.mNumFree + 1 }, some nextNode)

/-- `qpidBridgeMamaTransportImpl_extendMessagePool`. -/
def extendMessagePool (p : MsgPool K F) (numMsgs : Nat) : MsgPool K F :=
  ((List.range numMsgs).foldl extendRound (p, none)).1

/-- `qpidBridgeMamaTransportImpl_createMessagePool`. -/
def createMessagePool (numMsgs : Nat) : Option (MsgPool K F) :=
  if numMsgs < 2 then none
  else some <| extendMessagePool
    { nodes := fun _ => newNode
      top := 0
      mFreeList := none
      mOpenList := none
      mNumMsgs := numMsgs
      mNumFree := 0 } numMsgs

/-- `qpidBridgeMamaTransportImpl_getPoolMsg`. -/
def getPoolMsg (incSize : Nat) (p : MsgPool K F) : Option (MsgPool K F × Nat) :=
  let p := if p.mNumFree = 0 then p.extendMessagePool incSize else p
  match p.mFreeList with
  | none => none
  | some node =>
    let p := { p with mFreeList := (p.nodes node).mNext, mNumFree := p.mNumFree - 1 }
    match p.mOpenList with
    | none =>
      let p := { p with mOpenList := some node }
      some ((p.setPrev node none).setNext node none, node)
    | some first =>
      let p := (p.setPrev node none).setNext node (some first)
      let p := p.setPrev first (some node)
      some ({ p with mOpenList := some node }, node)

/-- The first half of `qpidBridgeMamaTransportImpl_releasePoolMsg`: the node leaves the open
list. -/
def closeNode (p : MsgPool K F) (node : Nat) : MsgPool K F :=
  match p.mOpenList with
  | none => p
  | some _ =>
    match (p.nodes node).mNext, (p.nodes node).mPrev with
    | none, none => { p with mOpenList := none }
    | none, some prev => p.setNext prev none
    | some next, none => { p.setPrev next none with mOpenList := some next }
    | some next, some prev => (p.setPrev next (some prev)).setNext prev (some next)

/-- `qpidBridgeMamaTransportImpl_releasePoolMsg`; `MAMA_STATUS_QUEUE_FULL` is `false`. -/
def releasePoolMsg (p : MsgPool K F) (node : Nat) : MsgPool K F × Bool :=
  if p.mNumFree ≥ p.mNumMsgs then (p, false)
  else
    let p := p.closeNode node
    let p := p.setNext node p.mFreeList
    ({ p with mFreeList := some node, mNumFree := p.mNumFree + 1 }, true)

end MsgPool

end Qpid

end Mama
