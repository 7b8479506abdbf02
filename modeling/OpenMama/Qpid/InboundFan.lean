import OpenMama.Qpid.Inbound
import OpenMama.Qpid.MessagePoolLists

/-!
# Fanning out

What the inbound path is for, without nodes and tables: a message goes to the queue of every
subscription that is registered under its subject and not muted, and the subscription processes it
if it is still there and not muted when the queue comes to it (`Fan.Next`).  A run of the bridge is
right if it processes just that, and if after every step the nodes of the pool are in the right
lists (`Correct`).
-/

namespace Mama

namespace Qpid

variable {K F : Type}

/-! ## Messages -/

def PnMessage.metadata (m : PnMessage K F) : Option Metadata :=
  match m.msgType, m.properties with
  | .inboxRequest, _ :: .string inboxName :: .string replyTo :: _ =>
    some (.request inboxName replyTo)
  | .inboxRequest, _ => none
  | .inboxResponse, _ :: .string targetSubject :: _ => some (.response targetSubject)
  | .inboxResponse, _ => none
  | type, _ => some (.plain type)

def PnMessage.payload (m : PnMessage K F) : Option (Payload F) :=
  match m.body with
  | .list f => some (.fields f)
  | .binary b => some (.bytes b)
  | _ => none

/-- A message is to be processed with its own body and metadata. -/
def PnMessage.content (m : PnMessage K F) : Option (Received F) := do
  let payload ← m.payload
  let metadata ← m.metadata
  some ⟨some payload, metadata⟩

def PnMessage.fannedUnder (m : PnMessage K F) : Option K :=
  match m.msgType with
  | .terminate | .subRequest => none
  | _ => m.subject

def Storable (s : List UInt8) : Prop := 0 ∉ s ∧ s.length < propertyLen

def Metadata.Storable : Metadata → Prop
  | .plain _ => True
  | .request inboxName replyTo => Qpid.Storable inboxName ∧ Qpid.Storable replyTo
  | .response targetSubject => Qpid.Storable targetSubject

instance : DecidablePred Metadata.Storable
  | .plain _ => .isTrue trivial
  | .request inboxName replyTo =>
    inferInstanceAs (Decidable ((0 ∉ inboxName ∧ inboxName.length < propertyLen) ∧
      0 ∉ replyTo ∧ replyTo.length < propertyLen))
  | .response targetSubject =>
    inferInstanceAs (Decidable (0 ∉ targetSubject ∧ targetSubject.length < propertyLen))

def Atom.Usable (accepts : List UInt8 → Bool) : Atom F → Prop
  | .list _ => True
  | .binary b => b ≠ [] ∧ accepts b
  | _ => False

instance (accepts : List UInt8 → Bool) : DecidablePred (Atom.Usable (F := F) accepts)
  | .list _ => .isTrue trivial
  | .binary b => inferInstanceAs (Decidable (b ≠ [] ∧ accepts b))
  | .null | .ubyte _ | .string _ => .isFalse id

/-- The message has a body and metadata that are taken as they are. -/
def PnMessage.Unpacks (accepts : List UInt8 → Bool) (m : PnMessage K F) : Prop :=
  m.body.Usable accepts ∧
    match m.metadata with
    | none => False
    | some metadata => metadata.Storable

instance (accepts : List UInt8 → Bool) (m : PnMessage K F) : Decidable (m.Unpacks accepts) :=
  @instDecidableAnd _ _ _ <|
    match m.metadata with
    | none => .isFalse id
    | some metadata => inferInstanceAs (Decidable metadata.Storable)

/-! ## What is expected -/

structure FanSub (K : Type) where
  subject : K
  queue : Nat
  unmuted : Bool

/-- The subscriptions that are there, the message that is being fanned out with the subscriptions
that are still to get it, and what waits in the queues. -/
structure Fan (K F : Type) where
  created : Nat
  subs : Nat → Option (FanSub K)
  current : Option (PnMessage K F × List Nat)
  stopped : Bool
  queues : Nat → List (Nat × PnMessage K F)

namespace Fan

def init : Fan K F := ⟨0, fun _ => none, none, false, fun _ => []⟩

/-- A message is put into the queue of a subscription that is not muted. -/
def deliver (f : Fan K F) (m : PnMessage K F) (i : Nat) : Nat → List (Nat × PnMessage K F) :=
  match f.subs i with
  | some s =>
    if s.unmuted then Function.update f.queues s.queue (f.queues s.queue ++ [(i, m)]) else f.queues
  | none => f.queues

def Next (f : Fan K F) (l : Step K F) (out : Option (Nat × Received F)) (f' : Fan K F) : Prop :=
  match l with
  | .create subject queue =>
    out = none ∧ f' = { f with
      created := f.created + 1
      subs := Function.update f.subs f.created (some ⟨subject, queue, true⟩) }
  | .mute i =>
    out = none ∧ f' = { f with
      subs := Function.update f.subs i ((f.subs i).map fun s => { s with unmuted := false }) }
  | .destroy i => out = none ∧ f' = { f with subs := Function.update f.subs i none }
  | .receive m =>
    out = none ∧
      if f.stopped ∨ f.current.isSome then f' = f
      else if m.msgType = .terminate then f' = { f with stopped := true }
      else match m.fannedUnder with
        | none => f' = f
        | some subject =>
          -- each subscription under the subject once
          ∃ ids : List Nat, ids.Nodup ∧
            (∀ i, i ∈ ids ↔ ∃ s, f.subs i = some s ∧ s.subject = subject) ∧
            f' = { f with current := if ids = [] then none else some (m, ids) }
  | .receiveFailed =>
    out = none ∧ if f.stopped ∨ f.current.isSome then f' = f else f' = { f with stopped := true }
  | .fanOut =>
    out = none ∧
      match f.current with
      | none | some (_, []) => f' = f
      | some (m, i :: ids) =>
        f' = { f with
          current := if ids = [] then none else some (m, ids)
          queues := f.deliver m i }
  | .callback queue =>
    match f.queues queue with
    | [] => out = none ∧ f' = f
    | (i, m) :: rest =>
      f' = { f with queues := Function.update f.queues queue rest } ∧
        match f.subs i with
        | some s =>
          if s.unmuted then ∃ received, m.content = some received ∧ out = some (i, received)
          else out = none
        | none => out = none

end Fan

namespace DispatchThread

def node : DispatchThread K → Option Nat
  | .fanning msgNode _ _ => some msgNode
  | _ => none

end DispatchThread

namespace TransportBridge

/-- A node is held by an event of a queue, or by the dispatch thread in the middle of a message. -/
def Holds (b : TransportBridge K F) (n : Nat) : Prop :=
  (∃ queue, n ∈ b.queues queue) ∨ b.thread.node = some n

/-- Every node is in one of the lists, and the open ones are those that are held.  Between messages,
and with nothing in the queues, all of them are free. -/
structure Sound (b : TransportBridge K F) : Prop where
  lists : ∃ free opened, b.mQpidMsgPool.Lists free opened ∧ ∀ n, n ∈ opened ↔ b.Holds n
  drained : b.thread.node = none → (∀ queue, b.queues queue = []) →
    b.mQpidMsgPool.mOpenList = none ∧ b.mQpidMsgPool.mNumFree = b.mQpidMsgPool.top

variable [DecidableEq K]

/-- All steps of a run are possible and process what they should, the pool grows only when no node
is free, and the pool is sound before and after each step. -/
def Correct (q : Settings K) : TransportBridge K F → Fan K F → List (Step K F) → Prop
  | b, _, [] => b.Sound
  | b, f, l :: ls => b.Sound ∧ ∃ b' out f', b.step q l = some (b', out) ∧ f.Next l out f' ∧
      (b'.mQpidMsgPool.top ≠ b.mQpidMsgPool.top → b.mQpidMsgPool.mNumFree = 0) ∧
      Correct q b' f' ls

/-! ## When it is -/

/-- After a node was taken there are fewer free nodes than the pool was created with. -/
def RoomBehindNext (q : Settings K) (b : TransportBridge K F) : Prop :=
  (if b.mQpidMsgPool.mNumFree = 0 then q.mQpidMsgPoolIncSize else b.mQpidMsgPool.mNumFree) - 1 <
    b.mQpidMsgPool.mNumMsgs

def countUnder (b : TransportBridge K F) (subject : K) : Nat :=
  (List.range b.created).countP fun i => (b.subscriptions i).any fun s => s.mSubjectKey = subject

/-- Something was registered under the subject, now or earlier. -/
def HasTable (q : Settings K) (b : TransportBridge K F) (subject : K) : Prop :=
  (b.mSubEndpoints.mContainer.lookup q.platform.hash subject).join.isSome

instance (q : Settings K) (b : TransportBridge K F) : DecidablePred (b.HasTable q) := fun _ =>
  inferInstanceAs (Decidable (_ = true))

/-- A message that is fanned out needs subscriptions that fit in the buffer; any other is discarded
and needs room among the free nodes. -/
def ReceiveMeets (q : Settings K) (b : TransportBridge K F) : Option K → Prop
  | none => b.RoomBehindNext q
  | some subject =>
    if b.countUnder subject = 0 then b.RoomBehindNext q
    else q.platform.word * b.countUnder subject ≤ EndpointPool.bufferChunkSize

/-- The subscription that is next in the loop has to be there, and must not be muted if it is the
last one. -/
def FanOutMeets (b : TransportBridge K F) (isLast : Bool) : Option (Endpoint K Nat) → Prop
  | some (.closure sub) =>
    match b.subscriptions sub with
    | some s => isLast → s.mIsNotMuted
    | none => False
  | _ => False

/-- A callback needs a subscription that is there and not muted, a message that can be unpacked,
room among the free nodes, and, in its node, no subject or one that was subscribed to. -/
def CallbackMeets (q : Settings K) (b : TransportBridge K F) (node : MsgNode K F) : Prop :=
  (match node.mQpidSubscription.bind b.subscriptions with
    | some s => s.mIsNotMuted
    | none => False) ∧
  node.mMsg.Unpacks q.accepts ∧
  (match node.mMsg.subject with
    | none => True
    | some subject => b.HasTable q subject) ∧
  b.mQpidMsgPool.mNumFree < b.mQpidMsgPool.mNumMsgs

def Meets (q : Settings K) (b : TransportBridge K F) : Step K F → Prop
  | .create _ _ | .mute _ | .destroy _ => True
  | .receive m =>
    match b.thread with
    | .receiving => b.ReceiveMeets q m.fannedUnder
    | _ => True
  | .receiveFailed =>
    match b.thread with
    | .receiving => False
    | _ => True
  | .fanOut =>
    match b.thread with
    | .fanning _ subs subInc =>
      b.FanOutMeets (subInc + 1 = subs.count) (subs.endpoints.bind fun buffer => buffer subInc)
    | _ => True
  | .callback queue =>
    match b.queues queue with
    | [] => True
    | node :: _ => b.CallbackMeets q (b.mQpidMsgPool.nodes node)

section Decidable

variable (q : Settings K) (b : TransportBridge K F)

instance : Decidable (b.RoomBehindNext q) := inferInstanceAs (Decidable (_ < _))

instance : DecidablePred (b.ReceiveMeets q)
  | none => inferInstanceAs (Decidable (b.RoomBehindNext q))
  | some subject =>
    inferInstanceAs (Decidable (if b.countUnder subject = 0 then b.RoomBehindNext q
      else q.platform.word * b.countUnder subject ≤ EndpointPool.bufferChunkSize))

omit [DecidableEq K] in
instance (isLast : Bool) : DecidablePred (b.FanOutMeets isLast)
  | some (.closure sub) =>
    show Decidable (match b.subscriptions sub with
      | some s => isLast → s.mIsNotMuted
      | none => False) from
    match b.subscriptions sub with
    | some s => inferInstanceAs (Decidable (isLast → s.mIsNotMuted))
    | none => .isFalse id
  | some (.identifier _) | none => .isFalse id

instance (node : MsgNode K F) : Decidable (b.CallbackMeets q node) :=
  @instDecidableAnd _ _
    (match node.mQpidSubscription.bind b.subscriptions with
      | some s => inferInstanceAs (Decidable s.mIsNotMuted)
      | none => .isFalse id) <|
  @instDecidableAnd _ _ inferInstance <|
  @instDecidableAnd _ _
    (match node.mMsg.subject with
      | none => .isTrue trivial
      | some subject => inferInstanceAs (Decidable (b.HasTable q subject)))
    (inferInstanceAs (Decidable (_ < _)))

instance : DecidablePred (b.Meets q)
  | .create _ _ | .mute _ | .destroy _ => .isTrue trivial
  | .receive m =>
    show Decidable (match b.thread with
      | .receiving => b.ReceiveMeets q m.fannedUnder
      | _ => True) from
    match b.thread with
    | .receiving => inferInstanceAs (Decidable (b.ReceiveMeets q m.fannedUnder))
    | .fanning _ _ _ | .returned => .isTrue trivial
  | .receiveFailed =>
    show Decidable (match b.thread with
      | .receiving => False
      | _ => True) from
    match b.thread with
    | .receiving => .isFalse id
    | .fanning _ _ _ | .returned => .isTrue trivial
  | .fanOut =>
    show Decidable (match b.thread with
      | .fanning _ subs subInc =>
        b.FanOutMeets (subInc + 1 = subs.count) (subs.endpoints.bind fun buffer => buffer subInc)
      | _ => True) from
    match b.thread with
    | .fanning _ _ _ => inferInstanceAs (Decidable (b.FanOutMeets _ _))
    | .receiving | .returned => .isTrue trivial
  | .callback queue =>
    show Decidable (match b.queues queue with
      | [] => True
      | node :: _ => b.CallbackMeets q (b.mQpidMsgPool.nodes node)) from
    match b.queues queue with
    | [] => .isTrue trivial
    | node :: _ => inferInstanceAs (Decidable (b.CallbackMeets q (b.mQpidMsgPool.nodes node)))

end Decidable

def MeetsAll (q : Settings K) : TransportBridge K F → List (Step K F) → Prop
  | _, [] => True
  | b, l :: ls => b.Meets q l ∧
      match b.step q l with
      | some (b', _) => MeetsAll q b' ls
      | none => True

instance decidableMeetsAll (q : Settings K) :
    (b : TransportBridge K F) → DecidablePred (b.MeetsAll q)
  | _, [] => .isTrue trivial
  | b, l :: ls =>
    @instDecidableAnd _ _ inferInstance <|
      show Decidable (match b.step q l with
        | some (b', _) => MeetsAll q b' ls
        | none => True) from
      match b.step q l with
      | some (b', _) => decidableMeetsAll q b' ls
      | none => .isTrue trivial

def CorrectFromStart (q : Settings K) (ls : List (Step K F)) : Prop :=
  ∃ b : TransportBridge K F, create q = some b ∧ Correct q b .init ls

/-- A transport is created, and the steps of the run meet what they have to. -/
def MeetsFromStart (q : Settings K) (ls : List (Step K F)) : Prop :=
  ∃ b : TransportBridge K F, create q = some b ∧ MeetsAll q b ls

end TransportBridge

end Qpid

end Mama
