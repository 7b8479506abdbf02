import OpenMama.Qpid.Codec

/-!
# Publishing through the qpid bridge

A publisher keeps one bridge message and one proton message for all that it sends.  The calls set
the type, the names and the destination of the bridge message before the steps that can fail, and
`qpidBridgeMamaPublisher_send` does what the type says; it is set back to `QPID_MSG_PUB_SUB` only at
the end of a `send` that went through.

A run is a sequence of calls and of subscription requests that register a URL.
-/

namespace Mama

open List Function

namespace Qpid

/-! ## Algorithm -/

/-- The settings of a publisher and its transport.  `generateSubjectKey` makes the subject in a
buffer of 256 bytes; the outgoing address may be missing. -/
structure PublisherSettings where
  mSubject : Property
  mOutgoingAddress : Option (List UInt8)
  mReplyAddress : List UInt8

variable {F : Type}

structure Queued (F : Type) where
  address : Option (List UInt8)
  message : PnMessage (List UInt8) F

/-- What the messenger does in a call: whether it takes a message for an address, and whether
`pn_messenger_send` succeeds. -/
structure Messenger where
  takes : List UInt8 → Bool
  sends : Bool

/-- `qpidPublisherBridge`, with the endpoints of the transport. -/
structure Publisher (F : Type) where
  mQpidRawMsg : ProtonMessage F
  mMamaBridgeMsg : BridgeMsg
  mPubEndpoints : EndpointPool (List UInt8) Nat

def Publisher.create : Publisher F := ⟨.new, .createMsgOnly, .create⟩

inductive Status
  | ok
  | platform
  | invalidArg
  | propertyTooLong
  deriving DecidableEq

inductive Outcome
  | failed (status : Status)
  | done (status : Status)

/-- A call under way: the publisher, the message that is sent, and what was queued for it. -/
structure Sending (F : Type) where
  publisher : Publisher F
  msg : Target F
  queued : List (Queued F)

/-- `qpidBridgePublisherImpl_enqueueMessageForAddress`.  A URL that is too long is cut off. -/
def Sending.enqueueMessageForAddress (messenger : Messenger) (s : Sending F)
    (url : Option (List UInt8)) : Sending F :=
  match url with
  | none => s
  | some url =>
    let destination := (Property.set url).1
    let bridgeMsg := { s.publisher.mMamaBridgeMsg with mDestination := destination }
    let (pnMsg, msg, raw) := pack bridgeMsg s.msg s.publisher.mQpidRawMsg
    { publisher := { s.publisher with mMamaBridgeMsg := bridgeMsg, mQpidRawMsg := raw }
      msg
      queued :=
        if messenger.takes destination.val then s.queued ++ [⟨pnMsg.address, pnMsg.decode⟩]
        else s.queued }

/-- `(char*) targets[targetInc]`: endpoints are registered with a null pointer, so it is the
identifier. -/
def targetUrl : Option (Endpoint (List UInt8) Nat) → Option (List UInt8)
  | some (.identifier url) => some url
  | _ => none

namespace Publisher

def setMsgType (p : Publisher F) (type : MsgType) : Publisher F :=
  { p with mMamaBridgeMsg := { p.mMamaBridgeMsg with mMsgType := type } }

/-- `qpidBridgeMamaMsg_setSendSubject`, of a bridge message with no parent. -/
def setSendSubject (p : Publisher F) (symbol : List UInt8) : Publisher F × Bool :=
  let (value, ok) := Property.set symbol
  ({ p with mMamaBridgeMsg := { p.mMamaBridgeMsg with mSendSubject := value } }, ok)

/-- The end of `qpidBridgeMamaPublisher_send`. -/
def publish (messenger : Messenger) (s : Sending F) : Publisher F × List (Queued F) × Outcome :=
  if messenger.sends then (s.publisher.setMsgType .pubSub, s.queued, .done .ok)
  else (s.publisher, s.queued, .done .platform)

/-- `qpidBridgeMamaPublisher_send`. -/
def send (q : Platform (List UInt8) Nat) (t : PublisherSettings) (messenger : Messenger)
    (p : Publisher F) (msg : Target F) : Option (Publisher F × List (Queued F) × Outcome) :=
  match p.mMamaBridgeMsg.mMsgType with
  | .inboxRequest =>
    let (p, _) := p.setSendSubject t.mSubject.val
    let s : Sending F := ⟨p, msg, []⟩
    some (publish messenger (s.enqueueMessageForAddress messenger t.mOutgoingAddress))
  | .inboxResponse =>
    let s : Sending F := ⟨p, msg, []⟩
    let url := p.mMamaBridgeMsg.mDestination.val
    some (publish messenger (s.enqueueMessageForAddress messenger (some url)))
  | _ => do
    let (p, _) := p.setSendSubject t.mSubject.val
    let (endpoints, targets) ← p.mPubEndpoints.getRegistered q.hash q.wide q.word t.mSubject.val
    let p := { p with mPubEndpoints := endpoints }
    if targets.count = 0 then some (p, [], .done .ok)
    else do
      let urls ← targets.elements.mapM targetUrl
      some (publish messenger (urls.foldl
        (fun s url => s.enqueueMessageForAddress messenger (some url)) ⟨p, msg, []⟩))

/-- `sendReplyToInbox` and `sendReplyToInboxHandle`, once the names are known.  The null checks are
of arrays. -/
def sendReply (q : Platform (List UInt8) Nat) (t : PublisherSettings) (messenger : Messenger)
    (p : Publisher F) (inboxSubject replyTo : List UInt8) (reply : Target F) :
    Option (Publisher F × List (Queued F) × Outcome) :=
  let (p, ok) := p.setSendSubject inboxSubject
  if ¬ ok then some (p, [], .failed .platform)
  else
    let (value, ok) := Property.set replyTo
    let p := { p with mMamaBridgeMsg := { p.mMamaBridgeMsg with mDestination := value } }
    if ¬ ok then some (p, [], .failed .propertyTooLong)
    else p.send q t messenger reply

/-- The type and the target subject, with which a reply begins. -/
def beginReply (t : PublisherSettings) (p : Publisher F) : Publisher F :=
  { p with
    mMamaBridgeMsg := { p.mMamaBridgeMsg with
      mMsgType := .inboxResponse
      mTargetSubject := (Property.set t.mSubject.val).1 } }

/-- `qpidBridgeMamaPublisher_sendReplyToInbox`; the message of the request may have no bridge
message. -/
def sendReplyToInbox (q : Platform (List UInt8) Nat) (t : PublisherSettings)
    (messenger : Messenger) (p : Publisher F) (request : Option BridgeMsg) (reply : Target F) :
    Option (Publisher F × List (Queued F) × Outcome) :=
  let p := p.beginReply t
  match request with
  | none => some (p, [], .failed .invalidArg)
  | some bridgeMsg =>
    p.sendReply q t messenger bridgeMsg.mInboxName.val bridgeMsg.mReplyTo.val reply

end Publisher

/-- `qpidBridgeMsgReplyHandle`. -/
structure ReplyHandle where
  mInboxName : Property
  mReplyTo : Property

/-- `qpidBridgeMamaMsg_duplicateReplyHandle`. -/
def BridgeMsg.duplicateReplyHandle (m : BridgeMsg) : ReplyHandle :=
  ⟨(Property.set m.mInboxName.val).1, (Property.set m.mReplyTo.val).1⟩

namespace Publisher

/-- `qpidBridgeMamaPublisher_sendReplyToInboxHandle`. -/
def sendReplyToInboxHandle (q : Platform (List UInt8) Nat) (t : PublisherSettings)
    (messenger : Messenger) (p : Publisher F) (inbox : ReplyHandle) (reply : Target F) :
    Option (Publisher F × List (Queued F) × Outcome) :=
  (p.beginReply t).sendReply q t messenger inbox.mInboxName.val inbox.mReplyTo.val reply

/-- `qpidBridgeMamaPublisher_sendFromInboxByIndex`; `replyAddr` is the reply subject of the inbox.
What is too long is cut off. -/
def sendFromInbox (q : Platform (List UInt8) Nat) (t : PublisherSettings)
    (messenger : Messenger) (p : Publisher F) (replyAddr : List UInt8) (msg : Target F) :
    Option (Publisher F × List (Queued F) × Outcome) :=
  let p := { p with
    mMamaBridgeMsg := { p.mMamaBridgeMsg with
      mMsgType := .inboxRequest
      mInboxName := (Property.set replyAddr).1
      mReplyTo := (Property.set t.mReplyAddress).1 } }
  p.send q t messenger msg

/-- A subscription request, of which the dispatch thread registers the URL. -/
def register (q : Platform (List UInt8) Nat) (p : Publisher F) (topic replyTo : List UInt8) :
    Option (Publisher F) := do
  let endpoints ← p.mPubEndpoints.registerWithIdentifier q.hash topic replyTo none
  some { p with mPubEndpoints := endpoints }

end Publisher

structure Sendable (F : Type) where
  target : Target F
  payload : Payload F
  payload_eq : target.payload = some payload

inductive PublisherStep (F : Type)
  | register (topic replyTo : List UInt8)
  | send (messenger : Messenger) (msg : Sendable F)
  | sendReplyToInbox (messenger : Messenger) (request : Option BridgeMsg) (reply : Sendable F)
  | sendReplyToInboxHandle (messenger : Messenger) (request : BridgeMsg) (reply : Sendable F)
  | sendFromInbox (messenger : Messenger) (replyAddr : List UInt8) (msg : Sendable F)

def Publisher.step (q : Platform (List UInt8) Nat) (t : PublisherSettings) (p : Publisher F) :
    PublisherStep F → Option (Publisher F × List (Queued F) × Outcome)
  | .register topic replyTo => do
    let p ← p.register q topic replyTo
    some (p, [], .done .ok)
  | .send messenger msg => p.send q t messenger msg.target
  | .sendReplyToInbox messenger request reply =>
    p.sendReplyToInbox q t messenger request reply.target
  | .sendReplyToInboxHandle messenger request reply =>
    p.sendReplyToInboxHandle q t messenger request.duplicateReplyHandle reply.target
  | .sendFromInbox messenger replyAddr msg => p.sendFromInbox q t messenger replyAddr msg.target

/-! ## Specification -/

structure Outgoing (F : Type) where
  address : List UInt8
  subject : List UInt8
  metadata : Metadata
  payload : Payload F

def Queued.view (m : Queued F) : Option (Outgoing F) := do
  let address ← m.address
  let subject ← m.message.subject
  let content ← m.message.content
  let payload ← content.payload
  some ⟨address, subject, content.metadata, payload⟩

def reply (t : PublisherSettings) (request : BridgeMsg) (payload : Payload F) :
    List (Outgoing F) :=
  if request.mMsgType = .inboxRequest then
    [⟨request.mReplyTo.val, request.mInboxName.val, .response t.mSubject.val, payload⟩]
  else []

/-- What a step is to send out; `R` tells the URLs that are registered for a subject. -/
def PublisherStep.Sends (t : PublisherSettings) (R : Relation (List UInt8) Nat) :
    PublisherStep F → List (Outgoing F) → Prop
  | .register _ _, out => out = []
  | .send _ msg, out =>
    -- each URL once
    ∃ urls : List (List UInt8), urls.Nodup ∧ (∀ url, url ∈ urls ↔ (R t.mSubject.val url).isSome) ∧
      out = urls.map fun url => ⟨url, t.mSubject.val, .plain .pubSub, msg.payload⟩
  | .sendReplyToInbox _ none _, out => out = []
  | .sendReplyToInbox _ (some request) msg, out => out = reply t request msg.payload
  | .sendReplyToInboxHandle _ request msg, out => out = reply t request msg.payload
  | .sendFromInbox _ replyAddr msg, out => ∃ address, t.mOutgoingAddress = some address ∧
      out = [⟨address, t.mSubject.val, .request replyAddr t.mReplyAddress, msg.payload⟩]

/-- Whether the messenger takes what a step sends to an address. -/
def PublisherStep.takes : PublisherStep F → List UInt8 → Bool
  | .register _ _ => fun _ => true
  | .send messenger _ | .sendReplyToInbox messenger _ _ | .sendReplyToInboxHandle messenger _ _
  | .sendFromInbox messenger _ _ => messenger.takes

/-- A step queues what it is to send, as far as the messenger takes it.  Only a reply to a message
with no bridge message fails before anything is published, and it queues nothing. -/
def PublisherStep.Right (t : PublisherSettings) (R : Relation (List UInt8) Nat)
    (s : PublisherStep F) (queued : List (Queued F)) : Outcome → Prop
  | .failed _ => queued = [] ∧ ∃ messenger msg, s = .sendReplyToInbox messenger none msg
  | .done _ => ∃ out, s.Sends t R out ∧
      queued.map Queued.view = (out.filter fun m => s.takes m.address).map some

def PublisherStep.next (R : Relation (List UInt8) Nat) : PublisherStep F →
    Relation (List UInt8) Nat
  | .register topic replyTo => R.register topic replyTo none
  | _ => R

def Publishes (q : Platform (List UInt8) Nat) (t : PublisherSettings) :
    Publisher F → Relation (List UInt8) Nat → List (PublisherStep F) → Prop
  | _, _, [] => True
  | p, R, s :: ss => ∃ p' queued outcome, p.step q t s = some (p', queued, outcome) ∧
      s.Right t R queued outcome ∧ Publishes q t p' (s.next R) ss

/-! ## When it holds -/

/-- The body of the proton message is empty, or begins with the bytes that are to be sent. -/
def Publisher.Packs (p : Publisher F) (msg : Sendable F) : Prop :=
  match msg.target with
  | .qpid _ => True
  | .other bytes => p.mQpidRawMsg.decode.body = .null ∨ p.mQpidRawMsg.decode.body = .binary bytes

def PublisherStep.Meets (q : Platform (List UInt8) Nat) (t : PublisherSettings)
    (R : Relation (List UInt8) Nat) (p : Publisher F) : PublisherStep F → Prop
  | .register _ _ => True
  | .send _ msg =>
    -- no reply or request was left behind
    p.mMamaBridgeMsg.mMsgType = .pubSub ∧ p.Packs msg ∧
      ∀ urls : List (List UInt8), urls.Nodup → (∀ url ∈ urls, (R t.mSubject.val url).isSome) →
        q.word * urls.length ≤ EndpointPool.bufferChunkSize ∧ ∀ url ∈ urls, Storable url
  | .sendReplyToInbox _ none _ => True
  | .sendReplyToInbox _ (some request) msg | .sendReplyToInboxHandle _ request msg =>
    request.mMsgType = .inboxRequest ∧ p.Packs msg
  | .sendFromInbox _ replyAddr msg =>
    Storable replyAddr ∧ Storable t.mReplyAddress ∧ p.Packs msg ∧
      ∃ address, t.mOutgoingAddress = some address ∧ Storable address

def AllMeet (q : Platform (List UInt8) Nat) (t : PublisherSettings) :
    Publisher F → Relation (List UInt8) Nat → List (PublisherStep F) → Prop
  | _, _, [] => True
  | p, R, s :: ss => s.Meets q t R p ∧ ∀ p' queued outcome,
      p.step q t s = some (p', queued, outcome) → AllMeet q t p' (s.next R) ss

/-! ## One message -/

/-- The proton message and the message that is sent are such that its payload arrives. -/
structure Conveys (raw : ProtonMessage F) (target : Target F) (payload : Payload F) : Prop where
  arriving : ∃ first, StartsWith raw first ∧ target.arriving first = some payload
  payload_eq : target.payload = some payload

theorem Conveys.pack {raw : ProtonMessage F} {target : Target F} {payload : Payload F}
    (h : Conveys raw target payload) (bridgeMessage : BridgeMsg) :
    Conveys (pack bridgeMessage target raw).2.2 (pack bridgeMessage target raw).2.1 payload := by
  obtain ⟨⟨first, hstarts, harriving⟩, hpayload⟩ := h
  refine ⟨⟨target.first first, startsWith_pack hstarts bridgeMessage target, ?_⟩, ?_⟩
  · cases target with
    | qpid m => exact harriving
    | other bytes => exact harriving
  · cases target with
    | qpid m => exact hpayload
    | other bytes => exact hpayload

theorem Publisher.Packs.conveys {p : Publisher F} {msg : Sendable F} (h : p.Packs msg)
    {first : Option (List UInt8)} (hstarts : StartsWith p.mQpidRawMsg first) :
    Conveys p.mQpidRawMsg msg.target msg.payload := by
  refine ⟨⟨first, hstarts, ?_⟩, msg.payload_eq⟩
  have hpayload := msg.payload_eq
  unfold Publisher.Packs at h
  rw [decode_body, hstarts.head] at h
  cases htarget : msg.target with
  | qpid m => rwa [htarget] at hpayload
  | other bytes =>
    rw [htarget] at hpayload h
    cases first with
    | none => exact hpayload
    | some a =>
      have hsame : a = bytes := by
        rcases h with hnull | hbytes
        · cases hnull
        · exact Atom.binary.inj hbytes
      rwa [hsame]

theorem address_pack (bridgeMessage : BridgeMsg) (target : Target F) (raw : ProtonMessage F) :
    (pack bridgeMessage target raw).1.address = some bridgeMessage.mDestination.val := by
  cases target <;> rfl

/-- What the bridge message says that is sent to a URL. -/
def BridgeMsg.outgoing (bridgeMessage : BridgeMsg) (url : List UInt8) (payload : Payload F) :
    Outgoing F :=
  ⟨url, bridgeMessage.mSendSubject.val, bridgeMessage.metadata, payload⟩

theorem enqueueMessageForAddress_spec {messenger : Messenger} {s : Sending F}
    {payload : Payload F} (h : Conveys s.publisher.mQpidRawMsg s.msg payload)
    (htype : s.publisher.mMamaBridgeMsg.mMsgType.Published) {url : List UInt8}
    (hurl : Storable url) :
    ∃ raw msg queued, s.enqueueMessageForAddress messenger (some url) =
        ⟨⟨raw, { s.publisher.mMamaBridgeMsg with mDestination := ⟨url, hurl⟩ },
          s.publisher.mPubEndpoints⟩, msg, s.queued ++ queued⟩ ∧
      Conveys raw msg payload ∧
      queued.map Queued.view =
        ([s.publisher.mMamaBridgeMsg.outgoing url payload].filter
          fun m => messenger.takes m.address).map some := by
  obtain ⟨⟨raw, bridgeMsg, endpoints⟩, msg, queued⟩ := s
  have hset : Property.set url = (⟨url, hurl⟩, true) := Property.set_val ⟨url, hurl⟩
  generalize hbridge : ({ bridgeMsg with mDestination := ⟨url, hurl⟩ } : BridgeMsg) = bridgeMsg'
  have hpack := h.pack bridgeMsg'
  obtain ⟨⟨first, hstarts, harriving⟩, hpayload⟩ := h
  have htype' : bridgeMsg'.mMsgType.Published := by rwa [← hbridge]
  have hcontent := content_pack hstarts htype' (by rw [hpayload]; rfl)
  have hsubject := subject_pack bridgeMsg' msg raw
  have haddress := address_pack bridgeMsg' msg raw
  rw [harriving] at hcontent
  have hview : Queued.view ⟨(pack bridgeMsg' msg raw).1.address,
      (pack bridgeMsg' msg raw).1.decode⟩ = some (bridgeMsg.outgoing url payload) := by
    rw [Queued.view, haddress]
    rw [hsubject, hcontent, ← hbridge]
    rfl
  refine ⟨_, _, if messenger.takes url then [⟨(pack bridgeMsg' msg raw).1.address,
    (pack bridgeMsg' msg raw).1.decode⟩] else [], ?_, hpack, ?_⟩
  · unfold Sending.enqueueMessageForAddress
    dsimp only
    rw [hset, hbridge]
    split <;> simp
  · have htakes : (bridgeMsg.outgoing url payload).address = url := rfl
    cases ht : messenger.takes url with
    | false => simp [htakes, ht]
    | true => simp [htakes, ht, hview]

theorem enqueueMessageForAddress_all {messenger : Messenger} {urls : List (List UInt8)}
    (hurls : ∀ url ∈ urls, Storable url) {s : Sending F} {payload : Payload F}
    (h : Conveys s.publisher.mQpidRawMsg s.msg payload)
    (htype : s.publisher.mMamaBridgeMsg.mMsgType.Published) :
    ∃ raw destination msg queued,
      urls.foldl (fun s url => s.enqueueMessageForAddress messenger (some url)) s =
        ⟨⟨raw, { s.publisher.mMamaBridgeMsg with mDestination := destination },
          s.publisher.mPubEndpoints⟩, msg, s.queued ++ queued⟩ ∧
      Conveys raw msg payload ∧
      queued.map Queued.view =
        ((urls.map fun url => s.publisher.mMamaBridgeMsg.outgoing url payload).filter
          fun m => messenger.takes m.address).map some := by
  induction urls generalizing s with
  | nil => exact ⟨_, s.publisher.mMamaBridgeMsg.mDestination, _, [], by simp, h, rfl⟩
  | cons url urls ih =>
    obtain ⟨hurl, hrest⟩ := forall_mem_cons.mp hurls
    obtain ⟨raw, msg, queued, hrun, hconveys, hview⟩ :=
      @enqueueMessageForAddress_spec F messenger s payload h htype url hurl
    rw [foldl_cons, hrun]
    obtain ⟨raw', destination, msg', queued', hrun', hconveys', hview'⟩ := ih hrest
      (s := ⟨⟨raw, { s.publisher.mMamaBridgeMsg with mDestination := ⟨url, hurl⟩ },
        s.publisher.mPubEndpoints⟩, msg, s.queued ++ queued⟩) hconveys htype
    refine ⟨raw', destination, msg', queued ++ queued', ?_, hconveys', ?_⟩
    · rw [hrun', append_assoc]
    · rw [map_append, hview, hview', ← map_append, ← filter_append]; rfl

/-! ## One step -/

/-- The endpoints are those that were registered, with null pointers, and the proton message begins
with what was packed first. -/
structure Publisher.Good (q : Platform (List UInt8) Nat) (p : Publisher F)
    (R : Relation (List UInt8) Nat) : Prop where
  endpoints : ∃ known, Represents q p.mPubEndpoints R known
  nulls : ∀ topic url, (R topic url).join = none
  packed : ∃ first, StartsWith p.mQpidRawMsg first

variable {q : Platform (List UInt8) Nat} {t : PublisherSettings} {messenger : Messenger}
  {p : Publisher F} {R : Relation (List UInt8) Nat}

theorem good_create : (Publisher.create : Publisher F).Good q fun _ _ => none :=
  ⟨⟨[], represents_create q⟩, fun _ _ => rfl, none, startsWith_new⟩

/-- A step that goes right, and the publisher after it. -/
def PublisherStep.Goes (q : Platform (List UInt8) Nat) (t : PublisherSettings)
    (R : Relation (List UInt8) Nat) (s : PublisherStep F)
    (result : Option (Publisher F × List (Queued F) × Outcome)) : Prop :=
  ∃ p' queued outcome, result = some (p', queued, outcome) ∧ s.Right t R queued outcome ∧
    p'.Good q (s.next R)

theorem publish_eq (messenger : Messenger) (s : Sending F) :
    ∃ bridgeMsg status, Publisher.publish messenger s =
      (⟨s.publisher.mQpidRawMsg, bridgeMsg, s.publisher.mPubEndpoints⟩, s.queued,
        .done status) := by
  unfold Publisher.publish
  split
  · exact ⟨_, _, rfl⟩
  · exact ⟨_, _, rfl⟩

theorem goes_urls (p : Publisher F) (s : PublisherStep F) (hgood : p.Good q R)
    (hnext : s.next R = R)
    (htakes : s.takes = messenger.takes) {target : Target F} {payload : Payload F}
    (h : Conveys p.mQpidRawMsg target payload) (htype : p.mMamaBridgeMsg.mMsgType.Published)
    {urls : List (List UInt8)} (hurls : ∀ url ∈ urls, Storable url)
    (hsends : s.Sends t R (urls.map fun url => p.mMamaBridgeMsg.outgoing url payload)) :
    s.Goes q t R (some (Publisher.publish messenger (urls.foldl
      (fun s url => s.enqueueMessageForAddress messenger (some url)) ⟨p, target, []⟩))) := by
  obtain ⟨raw, destination, msg, queued, hrun, ⟨⟨first, hstarts, -⟩, -⟩, hview⟩ :=
    @enqueueMessageForAddress_all F messenger urls hurls ⟨p, target, []⟩ payload h htype
  obtain ⟨bridgeMsg, status, hpublish⟩ := publish_eq messenger (urls.foldl
    (fun s url => s.enqueueMessageForAddress messenger (some url)) ⟨p, target, []⟩)
  rw [hpublish, hrun]
  refine ⟨_, _, _, rfl, ⟨_, hsends, ?_⟩, ?_⟩
  · rwa [htakes]
  · rw [hnext]; exact ⟨hgood.endpoints, hgood.nulls, first, hstarts⟩

theorem setSendSubject_property (p : Publisher F) (symbol : Property) :
    p.setSendSubject symbol.val =
      ({ p with mMamaBridgeMsg := { p.mMamaBridgeMsg with mSendSubject := symbol } }, true) := by
  rw [Publisher.setSendSubject, Property.set_val]

theorem mapM_targetUrl (hnull : ∀ topic url, (R topic url).join = none) (topic : List UInt8)
    (urls : List (List UInt8)) :
    (urls.map fun url => some (R.endpoint topic url)).mapM targetUrl = some urls := by
  have hurl : ∀ url, targetUrl (some (R.endpoint topic url)) = some url := by
    intro url
    rw [Relation.endpoint, hnull]
    rfl
  induction urls with
  | nil => rfl
  | cons url urls ih => simp [hurl, ih]

section

variable (hgood : p.Good q R)

include hgood

theorem goes_send {msg : Sendable F} (h : (PublisherStep.send messenger msg).Meets q t R p) :
    (PublisherStep.send messenger msg).Goes q t R (p.send q t messenger msg.target) := by
  obtain ⟨htype, hpacks, hurls⟩ := h
  obtain ⟨⟨known, hrepresents⟩, hnull, first, hstarts⟩ := hgood
  have hconveys := hpacks.conveys hstarts
  obtain ⟨hright, -⟩ := hrepresents.getRegistered t.mSubject.val
  obtain ⟨endpoints, result, hregistered, hrepresents', urls, hnodup, hmem, helements⟩ :=
    hright fun urls hnodup hall => (hurls urls hnodup hall).1
  have hstorable := (hurls urls hnodup fun url => (hmem url).mp).2
  have hcount : result.count = urls.length := by
    have hlength := congrArg List.length helements
    simpa [EndpointPool.Registered.elements] using hlength
  rw [Publisher.send, htype]
  dsimp only
  rw [setSendSubject_property]
  rw [hregistered]
  simp only [Option.bind_eq_bind, Option.bind_some]
  by_cases hnone : result.count = 0
  · have hempty : urls = [] := eq_nil_of_length_eq_zero (hcount ▸ hnone)
    rw [if_pos hnone]
    refine ⟨_, _, _, rfl, ⟨_, ⟨urls, hnodup, hmem, rfl⟩, ?_⟩, ⟨known, hrepresents'⟩, hnull, first,
      hstarts⟩
    rw [hempty]
    rfl
  rw [if_neg hnone, helements, mapM_targetUrl hnull]
  have hmetadata : ({ p.mMamaBridgeMsg with mSendSubject := t.mSubject } : BridgeMsg).metadata =
      .plain .pubSub := by
    rw [BridgeMsg.metadata, htype]
  refine goes_urls
    ⟨p.mQpidRawMsg, { p.mMamaBridgeMsg with mSendSubject := t.mSubject }, endpoints⟩
    (.send messenger msg) ⟨⟨known, hrepresents'⟩, hnull, first,
      hstarts⟩ rfl rfl hconveys (.inl htype)
    hstorable ⟨urls, hnodup, hmem, ?_⟩
  unfold BridgeMsg.outgoing
  rw [hmetadata]

theorem goes_request {replyAddr : List UInt8} {msg : Sendable F}
    (h : (PublisherStep.sendFromInbox messenger replyAddr msg).Meets q t R p) :
    (PublisherStep.sendFromInbox messenger replyAddr msg).Goes q t R
      (p.sendFromInbox q t messenger replyAddr msg.target) := by
  obtain ⟨hname, hreply, hpacks, address, houtgoing, haddress⟩ := h
  obtain ⟨first, hstarts⟩ := hgood.packed
  have hset : ∀ {s : List UInt8} (hs : Storable s), Property.set s = (⟨s, hs⟩, true) :=
    fun hs => Property.set_val ⟨_, hs⟩
  unfold Publisher.sendFromInbox Publisher.send
  dsimp only
  rw [hset hname, hset hreply, setSendSubject_property, houtgoing]
  exact goes_urls
    ⟨p.mQpidRawMsg, { p.mMamaBridgeMsg with
      mMsgType := .inboxRequest
      mInboxName := ⟨replyAddr, hname⟩
      mReplyTo := ⟨t.mReplyAddress, hreply⟩
      mSendSubject := t.mSubject }, p.mPubEndpoints⟩
    (.sendFromInbox messenger replyAddr msg) ⟨hgood.endpoints, hgood.nulls, first, hstarts⟩ rfl rfl
    (hpacks.conveys hstarts) (.inr (.inl rfl)) (forall_mem_singleton.mpr haddress)
    ⟨address, houtgoing, rfl⟩

omit hgood in
theorem goes_sendReply (s : PublisherStep F) (hgood : p.Good q R) (hnext : s.next R = R)
    (htakes : s.takes = messenger.takes) {request : BridgeMsg} {msg : Sendable F}
    (hpacks : p.Packs msg)
    (hsends : s.Sends t R [⟨request.mReplyTo.val, request.mInboxName.val,
      .response t.mSubject.val, msg.payload⟩]) :
    s.Goes q t R ((p.beginReply t).sendReply q t messenger request.mInboxName.val
      request.mReplyTo.val msg.target) := by
  obtain ⟨first, hstarts⟩ := hgood.packed
  unfold Publisher.sendReply Publisher.beginReply
  rw [setSendSubject_property, Property.set_val, Property.set_val]
  exact goes_urls
    ⟨p.mQpidRawMsg, { p.mMamaBridgeMsg with
      mMsgType := .inboxResponse
      mTargetSubject := t.mSubject
      mSendSubject := request.mInboxName
      mDestination := request.mReplyTo }, p.mPubEndpoints⟩ s
    ⟨hgood.endpoints, hgood.nulls, first, hstarts⟩ hnext htakes (hpacks.conveys hstarts)
    (.inr (.inr rfl)) (forall_mem_singleton.mpr request.mReplyTo.property) hsends

theorem goes_register (topic replyTo : List UInt8) :
    (PublisherStep.register (F := F) topic replyTo).Goes q t R
      (p.step q t (.register topic replyTo)) := by
  obtain ⟨⟨known, hrepresents⟩, hnull, hpacked⟩ := hgood
  obtain ⟨endpoints, hrun, hrepresents'⟩ := hrepresents.registerWithIdentifier topic replyTo none
  rw [(R.written_eq_iff topic replyTo none).mpr fun _ => rfl] at hrepresents'
  refine ⟨⟨p.mQpidRawMsg, p.mMamaBridgeMsg, endpoints⟩, [], .done .ok, ?_, ⟨[], rfl, rfl⟩,
    ⟨_, hrepresents'⟩, ?_, hpacked⟩
  · unfold Publisher.step Publisher.register; simp [hrun]
  intro topic' url
  show (R.register topic replyTo none topic' url).join = none
  unfold Relation.register
  split
  · exact hnull topic' url
  by_cases htopic : topic' = topic
  · subst htopic
    rw [update_self]
    by_cases hurl : url = replyTo
    · subst hurl
      rw [update_self]
      rfl
    · rw [update_of_ne hurl]; exact hnull topic' url
  · rw [update_of_ne htopic]; exact hnull topic' url

theorem goes_of_meets {s : PublisherStep F} (h : s.Meets q t R p) :
    s.Goes q t R (p.step q t s) := by
  cases s with
  | register topic replyTo => exact goes_register hgood topic replyTo
  | send messenger msg => exact goes_send hgood h
  | sendReplyToInbox messenger request msg =>
    cases request with
    | none =>
      exact ⟨_, _, _, rfl, ⟨rfl, messenger, msg, rfl⟩, hgood.endpoints, hgood.nulls, hgood.packed⟩
    | some request =>
      obtain ⟨htype, hpacks⟩ := h
      exact goes_sendReply (.sendReplyToInbox messenger (some request) msg) hgood rfl rfl hpacks
        (if_pos htype).symm
  | sendReplyToInboxHandle messenger request msg =>
    obtain ⟨htype, hpacks⟩ := h
    have hhandle : request.duplicateReplyHandle = ⟨request.mInboxName, request.mReplyTo⟩ := by
      rw [BridgeMsg.duplicateReplyHandle, Property.set_val, Property.set_val]
    show (PublisherStep.sendReplyToInboxHandle messenger request msg).Goes q t R
      (p.sendReplyToInboxHandle q t messenger request.duplicateReplyHandle msg.target)
    rw [hhandle]
    exact goes_sendReply (.sendReplyToInboxHandle messenger request msg) hgood rfl rfl hpacks
      (if_pos htype).symm
  | sendFromInbox messenger replyAddr msg => exact goes_request hgood h

theorem publishes_of_good (ss : List (PublisherStep F))
    (h : AllMeet q t p R ss) : Publishes q t p R ss := by
  induction ss generalizing p R with
  | nil => trivial
  | cons s ss ih =>
    obtain ⟨hmeets, hrest⟩ := h
    obtain ⟨p', queued, outcome, hrun, hright, hgood'⟩ := goes_of_meets hgood hmeets
    exact ⟨p', queued, outcome, hrun, hright, ih hgood' (hrest p' queued outcome hrun)⟩

end

/-- In a run whose steps all meet their conditions, every call queues just what it is to send,
whatever was sent and whatever failed before. -/
theorem publishes_of_allMeet (q : Platform (List UInt8) Nat) (t : PublisherSettings)
    (ss : List (PublisherStep F)) (h : AllMeet q t .create (fun _ _ => none) ss) :
    Publishes q t .create (fun _ _ => none) ss :=
  publishes_of_good good_create ss h

/-! ### Fixed runs -/

def onePlatform : Platform (List UInt8) Nat := ⟨fun _ => 0, fun _ => [], fun _ => 0, 8⟩

def oneSettings : PublisherSettings := ⟨⟨[1], by decide, by decide⟩, some [2], [3]⟩

def oneMessage : Sendable Unit := ⟨.other [7], .bytes [7], rfl⟩

def willing : Messenger := ⟨fun _ => true, true⟩

def oneRequest : BridgeMsg :=
  { BridgeMsg.createMsgOnly with
    mMsgType := .inboxRequest
    mInboxName := ⟨[4], by decide, by decide⟩
    mReplyTo := ⟨[5], by decide, by decide⟩ }

/-- A URL is registered, and then a request, a reply and a message are sent. -/
theorem publishes_of_allMeet_one :
    Publishes onePlatform oneSettings .create (fun _ _ => none)
      [.register [1] [9], .sendFromInbox willing [6] oneMessage,
        .sendReplyToInbox willing (some oneRequest) oneMessage, .send willing oneMessage] := by
  refine publishes_of_allMeet onePlatform oneSettings _ ⟨trivial, fun _ _ _ h => ?_⟩
  cases h
  refine ⟨⟨⟨by decide, by decide⟩, ⟨by decide, by decide⟩, .inl rfl, [2], rfl, by decide,
    by decide⟩, fun _ _ _ h => ?_⟩
  cases h
  refine ⟨⟨rfl, .inr rfl⟩, fun _ _ _ h => ?_⟩
  cases h
  refine ⟨⟨rfl, .inr rfl, fun urls hnodup hall => ?_⟩, fun _ _ _ _ => trivial⟩
  have hnine : ∀ url ∈ urls, url = [9] := by
    intro url hurl
    by_contra hne
    have hsome := hall url hurl
    simp [PublisherStep.next, Relation.register, oneSettings, hne] at hsome
  have hlength : urls.length ≤ 1 := by
    have hsub : urls ⊆ [[9]] := fun url hurl => mem_singleton.mpr (hnine url hurl)
    exact (subperm_of_subset hnodup hsub).length_le
  refine ⟨?_, fun url hurl => ?_⟩
  · show 8 * urls.length ≤ 1024; omega
  · rw [hnine url hurl]; exact ⟨by decide, by decide⟩

/-- `pn_messenger_send` fails. -/
def failing : Messenger := ⟨fun _ => true, false⟩

theorem nothing_sent {queued : List (Queued Unit)} {status : Status}
    (h : (PublisherStep.send willing oneMessage).Right oneSettings (fun _ _ => none) queued
      (.done status)) : queued.length = 0 := by
  obtain ⟨out, ⟨urls, -, hmem, hout⟩, hview⟩ := h
  have hnone : urls = [] := eq_nil_iff_forall_not_mem.mpr fun url hurl =>
    Bool.false_ne_true ((hmem url).mp hurl)
  rw [hout, hnone] at hview
  rw [← length_map Queued.view, hview]
  rfl

/-- No URL is registered.  A reply makes a response of the next message if it had no bridge message
to reply to, or if the messenger failed; and a reply to a plain message goes to the empty
address. -/
theorem not_publishes :
    ¬ Publishes onePlatform oneSettings .create (fun _ _ => none)
        [.sendReplyToInbox willing none oneMessage, .send willing oneMessage] ∧
      ¬ Publishes onePlatform oneSettings .create (fun _ _ => none)
        [.sendReplyToInbox failing (some oneRequest) oneMessage, .send willing oneMessage] ∧
      ¬ Publishes onePlatform oneSettings .create (fun _ _ => none)
        [.sendReplyToInbox willing (some .createMsgOnly) oneMessage] := by
  refine ⟨?_, ?_, ?_⟩
  · rintro ⟨_, _, _, hreply, -, hrest⟩
    cases hreply
    obtain ⟨_, _, _, hsend, hright, -⟩ := hrest
    cases hsend
    exact absurd (nothing_sent hright) (by decide +kernel)
  · rintro ⟨_, _, _, hreply, -, hrest⟩
    cases hreply
    obtain ⟨_, _, _, hsend, hright, -⟩ := hrest
    cases hsend
    exact absurd (nothing_sent hright) (by decide +kernel)
  · rintro ⟨_, _, _, hreply, hright, -⟩
    cases hreply
    obtain ⟨out, hout, hview⟩ := hright
    have hnone : out = [] := hout
    rw [hnone] at hview
    cases congrArg List.length hview

end Qpid

end Mama
