import OpenMama.Lib.TreeCursor
import OpenMama.Qpid.InboundRuns

/-!
# The codec of the qpid bridge

A publisher packs every message into one and the same proton message, unless the payload is a proton
message itself.  `qpidBridgeMsgCodec_pack` rewinds the properties and writes them anew, but not the
body, so the bytes of a payload are appended to those of the earlier ones; the receiver looks at the
first atom of the body.  `qpidBridgeMsgCodec_unpack` works on one bridge message and one MAMA
message, and only logs a body that is neither a list nor bytes.

Proton keeps an atom tree with a cursor; what it encodes is decoded as it was.

`content_pack` says what a packed message is to its receiver, and `roundTrips_iff` when all messages
that one publisher packs arrive as they were sent.
-/

namespace Mama

namespace Qpid

open Lib List

/-! ## Bridge messages -/

/-- A C string that fits into a buffer of `QPID_MSG_PROPERTY_LEN` bytes. -/
abbrev Property := {s : List UInt8 // Storable s}

theorem storable_setStringValue (value : List UInt8) : Storable (setStringValue value).1 := by
  have hstring : (0 : UInt8) ∉ value.takeWhile (· ≠ 0) := by
    intro h; simpa using mem_takeWhile_imp h
  unfold setStringValue
  dsimp only
  split
  case isTrue hlt => exact ⟨hstring, hlt⟩
  case isFalse =>
    refine ⟨fun h => hstring (mem_of_mem_take h), ?_⟩
    rw [length_take]
    exact (Nat.min_le_left _ _).trans_lt (by decide)

/-- `qpidBridgeMamaMsgImpl_setStringValue` with the buffer it fills. -/
def Property.set (value : List UInt8) : Property × Bool :=
  (⟨(setStringValue value).1, storable_setStringValue value⟩, (setStringValue value).2)

theorem Property.set_val (s : Property) : Property.set s.val = (s, true) := by
  have h := setStringValue_of_storable s.property
  refine Prod.ext (Subtype.ext ?_) ?_
  · show (setStringValue s.val).1 = s.val
    rw [h]
  · show (setStringValue s.val).2
    rw [h]

/-- `qpidBridgeMsgImpl`, as a publisher has it. -/
structure BridgeMsg where
  mMsgType : MsgType
  mInboxName : Property
  mReplyTo : Property
  mTargetSubject : Property
  mSendSubject : Property
  mDestination : Property

def Property.empty : Property := ⟨[], not_mem_nil, by decide⟩

/-- `qpidBridgeMamaMsgImpl_createMsgOnly`. -/
def BridgeMsg.createMsgOnly : BridgeMsg := ⟨.pubSub, .empty, .empty, .empty, .empty, .empty⟩

def MsgType.toByte : MsgType → UInt8
  | .pubSub => 0
  | .inboxRequest => 1
  | .inboxResponse => 2
  | .subRequest => 3
  | .terminate => 0xff
  | .other n => n

/-! ## Packing -/

/-- A node of the properties: `pn_data_put_list`, or an atom. -/
inductive Entry (F : Type)
  | list
  | atom (a : Atom F)

variable {F : Type}

def Entry.value : Entry F → Atom F
  | .list => .null
  | .atom a => a

/-- `pn_message_t` as it is built; what a list in the body contains is not looked at. -/
structure ProtonMessage (F : Type) where
  subject : Option (List UInt8)
  address : Option (List UInt8)
  body : TreeCursor (Atom F)
  properties : TreeCursor (Entry F)

/-- `pn_message`. -/
def ProtonMessage.new : ProtonMessage F := ⟨none, none, .empty, .empty⟩

/-- `mamaMsg`: a qpid payload is a proton message; others are serialised. -/
inductive Target (F : Type)
  | qpid (m : ProtonMessage F)
  | other (bytes : List UInt8)

def BridgeMsg.entries (bridgeMessage : BridgeMsg) : List (Entry F) :=
  .atom (.ubyte bridgeMessage.mMsgType.toByte) ::
    match bridgeMessage.mMsgType with
    | .inboxRequest =>
      [.atom (.string bridgeMessage.mInboxName.val), .atom (.string bridgeMessage.mReplyTo.val)]
    | .inboxResponse => [.atom (.string bridgeMessage.mTargetSubject.val)]
    | _ => []

/-- `qpidBridgeMsgCodec_pack`, from the subject on. -/
def ProtonMessage.packMeta (protonMessage : ProtonMessage F) (bridgeMessage : BridgeMsg) :
    ProtonMessage F :=
  { protonMessage with
    subject := some bridgeMessage.mSendSubject.val
    address := some bridgeMessage.mDestination.val
    properties :=
      ((protonMessage.properties.rewind.put .list).enter.putAll bridgeMessage.entries).exit }

/-- `qpidBridgeMsgCodec_pack`: the message that is packed, the MAMA message, and the proton message
of the publisher. -/
def pack (bridgeMessage : BridgeMsg) (target : Target F) (protonMessage : ProtonMessage F) :
    ProtonMessage F × Target F × ProtonMessage F :=
  match target with
  | .qpid m =>
    let m := m.packMeta bridgeMessage
    (m, .qpid m, protonMessage)
  | .other bytes =>
    -- the body is not rewound
    let protonMessage := { protonMessage with body := protonMessage.body.put (.binary bytes) }
    let protonMessage := protonMessage.packMeta bridgeMessage
    (protonMessage, .other bytes, protonMessage)

/-- What a receiver finds: the first atom of the body, and the entries of the first list of the
properties. -/
def ProtonMessage.decode (m : ProtonMessage F) : PnMessage (List UInt8) F where
  subject := m.subject
  body := (m.body.rewind.next.current.map OrderedTree.label).getD .null
  properties := m.properties.rewind.next.enter.after.map fun t => t.label.value

/-! ## Round trips -/

def BridgeMsg.metadata (bridgeMessage : BridgeMsg) : Metadata :=
  match bridgeMessage.mMsgType with
  | .inboxRequest => .request bridgeMessage.mInboxName.val bridgeMessage.mReplyTo.val
  | .inboxResponse => .response bridgeMessage.mTargetSubject.val
  | type => .plain type

def Target.payload : Target F → Option (Payload F)
  | .qpid m => m.decode.payload
  | .other bytes => some (.bytes bytes)

/-- A qpid payload is a list of fields; other payloads are not empty, and their library is there. -/
def Target.Valid (accepts : List UInt8 → Bool) : Target F → Prop
  | .qpid m => ∃ f, m.decode.body = .list f
  | .other bytes => bytes ≠ [] ∧ accepts bytes

def MsgType.Published (type : MsgType) : Prop :=
  type = .pubSub ∨ type = .inboxRequest ∨ type = .inboxResponse

structure Packed (accepts : List UInt8 → Bool) (F : Type) where
  bridgeMessage : BridgeMsg
  target : Target F
  published : bridgeMessage.mMsgType.Published
  valid : target.Valid accepts

def Atom.Junk : Atom F → Prop
  | .list _ => False
  | .binary bytes => bytes = []
  | _ => True

/-- A message that the publisher packs, or one with a body that is of no use. -/
inductive Transmission (accepts : List UInt8 → Bool) (F : Type)
  | packed (x : Packed accepts F)
  | junk (m : PnMessage (List UInt8) F) (h : m.body.Junk)

/-- The two ends: the proton message of the publisher, the nodes in which messages are received, and
the message of the queue. -/
structure Ends (F : Type) where
  mQpidRawMsg : ProtonMessage F
  pool : MsgPool (List UInt8) F
  mMsg : MamaMsg

variable {accepts : List UInt8 → Bool}

/-- Every message, received in some node, is found as it was sent, and what is of no use is an
error. -/
def RoundTrips (e : Ends F) : List (Nat × Transmission accepts F) → Prop
  | [] => True
  | (node, .packed x) :: ts =>
    let packed := pack x.bridgeMessage x.target e.mQpidRawMsg
    let m := packed.1.decode
    let pool := e.pool.setMsg node m
    ∃ mMsg, unpack accepts e.mMsg node m = some (mMsg, true) ∧
      mMsg.received pool.nodes = ⟨x.target.payload, x.bridgeMessage.metadata⟩ ∧
      m.subject = some x.bridgeMessage.mSendSubject.val ∧
      RoundTrips ⟨packed.2.2, pool, mMsg⟩ ts
  | (node, .junk m _) :: ts =>
    ∃ mMsg, unpack accepts e.mMsg node m = some (mMsg, false) ∧
      RoundTrips ⟨e.mQpidRawMsg, e.pool.setMsg node m, mMsg⟩ ts

def Target.buffers : Target F → List (List UInt8)
  | .qpid _ => []
  | .other bytes => [bytes]

def buffers : List (Nat × Transmission accepts F) → List (List UInt8)
  | [] => []
  | (_, .packed x) :: ts => x.target.buffers ++ buffers ts
  | (_, .junk _ _) :: ts => buffers ts

def TooLong (value : List UInt8) : Prop := propertyLen ≤ (value.takeWhile (· ≠ 0)).length

/-- One of the strings that are copied is too long, and those before it are there. -/
def PnMessage.Truncated {K : Type} (m : PnMessage K F) : Prop :=
  let first := nextIndex m.properties 0
  match m.msgType with
  | .inboxRequest => ∃ inboxName, Atom.getString (m.properties[first]?) = some inboxName ∧
      (TooLong inboxName ∨
        ∃ replyTo, Atom.getString (m.properties[nextIndex m.properties first]?) = some replyTo ∧
          TooLong replyTo)
  | .inboxResponse => ∃ targetSubject, Atom.getString (m.properties[first]?) = some targetSubject ∧
      TooLong targetSubject
  | _ => False

/-- A message of no use is an error because its bytes are none, or because of its strings. -/
def Transmission.Reported : Transmission accepts F → Prop
  | .packed _ => True
  | .junk m _ => m.body = .binary [] ∨ m.Truncated

/-! ## Proofs -/

theorem setStringValue_snd (value : List UInt8) :
    (setStringValue value).2 = false ↔ TooLong value := by
  unfold setStringValue TooLong
  dsimp only
  split <;> simp_all

theorem ofByte_toByte {type : MsgType} (h : type.Published) :
    MsgType.ofByte type.toByte = type := by
  rcases h with rfl | rfl | rfl <;> decide

theorem decode_body (m : ProtonMessage F) :
    m.decode.body = (m.body.roots.head?.map OrderedTree.label).getD .null := by
  rw [ProtonMessage.decode, TreeCursor.current_next_rewind]

theorem decode_packMeta_properties (m : ProtonMessage F) (bridgeMessage : BridgeMsg) :
    (m.packMeta bridgeMessage).decode.properties = bridgeMessage.entries.map Entry.value := by
  have hroots : (m.packMeta bridgeMessage).properties.roots =
      OrderedTree.node .list (bridgeMessage.entries.map OrderedTree.leaf) ::
        m.properties.roots.tail := TreeCursor.roots_write _ _ _
  unfold ProtonMessage.decode TreeCursor.rewind
  rw [hroots]
  show (bridgeMessage.entries.map OrderedTree.leaf).map (fun t : OrderedTree (Entry F) =>
    t.label.value) = _
  rw [map_map]
  rfl

variable {bridgeMessage : BridgeMsg} {raw : ProtonMessage F}

section

variable (m : ProtonMessage F)

include m

theorem msgType_packMeta (h : bridgeMessage.mMsgType.Published) :
    (m.packMeta bridgeMessage).decode.msgType = bridgeMessage.mMsgType := by
  rw [PnMessage.msgType, decode_packMeta_properties]
  exact ofByte_toByte h

theorem metadata_packMeta (h : bridgeMessage.mMsgType.Published) :
    (m.packMeta bridgeMessage).decode.metadata = some bridgeMessage.metadata := by
  rw [PnMessage.metadata, BridgeMsg.metadata, msgType_packMeta m h, decode_packMeta_properties]
  unfold BridgeMsg.entries
  rcases h with htype | htype | htype <;> rw [htype] <;> rfl

omit m in
theorem storable_metadata (bridgeMessage : BridgeMsg) : bridgeMessage.metadata.Storable := by
  unfold BridgeMsg.metadata
  cases bridgeMessage.mMsgType with
  | inboxRequest => exact ⟨bridgeMessage.mInboxName.property, bridgeMessage.mReplyTo.property⟩
  | inboxResponse => exact bridgeMessage.mTargetSubject.property
  | pubSub | subRequest | terminate | other => trivial

section

variable (h : bridgeMessage.mMsgType.Published)

include h

theorem unpacks_packMeta
    (hbody : m.decode.body.Usable accepts) : (m.packMeta bridgeMessage).decode.Unpacks accepts := by
  rw [PnMessage.Unpacks, metadata_packMeta m h]
  exact ⟨hbody, storable_metadata bridgeMessage⟩

theorem content_packMeta {payload : Payload F} (hpayload : m.decode.payload = some payload) :
    (m.packMeta bridgeMessage).decode.content = some ⟨some payload, bridgeMessage.metadata⟩ := by
  have hsame : (m.packMeta bridgeMessage).decode.payload = some payload := hpayload
  rw [PnMessage.content, metadata_packMeta m h, hsame]
  rfl

end

end

/-- The body of a publisher's message: the cursor is at the end, and these are the first bytes. -/
structure StartsWith (m : ProtonMessage F) (first : Option (List UInt8)) : Prop where
  atEnd : m.body.AtEnd
  head : m.body.roots.head? = first.map fun bytes => OrderedTree.leaf (.binary bytes)

theorem startsWith_new : StartsWith (.new : ProtonMessage F) none := ⟨TreeCursor.atEnd_empty, rfl⟩

theorem StartsWith.put {m : ProtonMessage F} {first : Option (List UInt8)} (h : StartsWith m first)
    (bytes : List UInt8) :
    StartsWith { m with body := m.body.put (.binary bytes) } (some (first.getD bytes)) where
  atEnd := h.atEnd.put _
  head := by
    rw [h.atEnd.roots_put]
    have hhead := h.head
    cases hroots : m.body.roots with
    | nil =>
      rw [hroots] at hhead
      cases first with
      | none => rfl
      | some a => cases hhead
    | cons t ts =>
      rw [hroots] at hhead
      cases first with
      | none => cases hhead
      | some a => exact hhead

/-- The payload that arrives: bytes are those that were packed first. -/
def Target.arriving (target : Target F) (first : Option (List UInt8)) : Option (Payload F) :=
  match target with
  | .qpid m => m.decode.payload
  | .other bytes => some (.bytes (first.getD bytes))

def Target.first (target : Target F) (first : Option (List UInt8)) : Option (List UInt8) :=
  match target with
  | .qpid _ => first
  | .other bytes => some (first.getD bytes)

/-- The bytes that were packed first are such that they can be unpacked. -/
def FirstValid (accepts : List UInt8 → Bool) (first : Option (List UInt8)) : Prop :=
  ∀ bytes, first = some bytes → bytes ≠ [] ∧ accepts bytes

theorem FirstValid.getD {first : Option (List UInt8)} (h : FirstValid accepts first)
    {bytes : List UInt8} (hbytes : bytes ≠ [] ∧ accepts bytes) :
    first.getD bytes ≠ [] ∧ accepts (first.getD bytes) := by
  cases first with
  | none => exact hbytes
  | some a => exact h a rfl

theorem FirstValid.next {first : Option (List UInt8)} (h : FirstValid accepts first)
    {target : Target F} (hvalid : target.Valid accepts) :
      FirstValid accepts (target.first first) := by
  cases target with
  | qpid m => exact h
  | other bytes =>
    intro a ha
    cases ha
    exact h.getD hvalid

theorem startsWith_pack {first : Option (List UInt8)} (h : StartsWith raw first)
    (bridgeMessage : BridgeMsg) (target : Target F) :
    StartsWith (pack bridgeMessage target raw).2.2 (target.first first) := by
  cases target with
  | qpid m => exact h
  | other bytes =>
    have hput := h.put bytes
    exact ⟨hput.atEnd, hput.head⟩

theorem StartsWith.body {first : Option (List UInt8)} (h : StartsWith raw first)
    (bytes : List UInt8) :
    ({ raw with body := raw.body.put (.binary bytes) } : ProtonMessage F).decode.body =
      .binary (first.getD bytes) := by
  rw [decode_body, (h.put bytes).head]
  rfl

theorem content_pack {first : Option (List UInt8)} {target : Target F} (h : StartsWith raw first)
    (htype : bridgeMessage.mMsgType.Published) (hpayload : target.payload.isSome) :
    (pack bridgeMessage target raw).1.decode.content =
      some ⟨target.arriving first, bridgeMessage.metadata⟩ := by
  cases target with
  | qpid m =>
    obtain ⟨payload, heq⟩ := Option.isSome_iff_exists.mp hpayload
    have harriving : (Target.qpid m).arriving first = some payload := heq
    rw [harriving]
    exact content_packMeta m htype heq
  | other bytes =>
    refine content_packMeta _ htype ?_
    rw [PnMessage.payload, h.body bytes]

theorem Target.Valid.isSome {target : Target F} (h : target.Valid accepts) :
    target.payload.isSome := by
  cases target with
  | qpid m =>
    obtain ⟨f, hbody⟩ := h
    show m.decode.payload.isSome
    rw [PnMessage.payload, hbody]
    rfl
  | other bytes => rfl

theorem unpacks_pack {first : Option (List UInt8)} {target : Target F} (h : StartsWith raw first)
    (hfirst : FirstValid accepts first) (htype : bridgeMessage.mMsgType.Published)
    (hvalid : target.Valid accepts) : (pack bridgeMessage target raw).1.decode.Unpacks accepts := by
  cases target with
  | qpid m =>
    obtain ⟨f, hbody⟩ := hvalid
    refine unpacks_packMeta m htype ?_
    rw [hbody]
    trivial
  | other bytes =>
    refine unpacks_packMeta _ htype ?_
    rw [h.body bytes]
    exact hfirst.getD hvalid

variable {K : Type} {e : Ends F}

theorem unpackProperties_false_iff (target : MamaMsg) (m : PnMessage K F) :
    (∃ tmp, unpackProperties target m = some (tmp, false)) ↔ m.Truncated := by
  unfold unpackProperties PnMessage.Truncated
  dsimp only
  cases m.msgType with
  | inboxRequest =>
    cases hinbox : Atom.getString (m.properties[nextIndex m.properties 0]?) with
    | none => simp
    | some inboxName =>
      have hname := setStringValue_snd inboxName
      cases hok : (setStringValue inboxName).2 with
      | false =>
        rw [hok] at hname
        have hlong : TooLong inboxName := hname.mp rfl
        simp [hok, hlong]
      | true =>
        rw [hok] at hname
        have hshort : ¬ TooLong inboxName := fun h => Bool.noConfusion (hname.mpr h)
        cases hreply : Atom.getString
            (m.properties[nextIndex m.properties (nextIndex m.properties 0)]?) with
        | none => simp [hok, hshort]
        | some replyTo => simp [hok, hshort, setStringValue_snd]
  | inboxResponse =>
    cases Atom.getString (m.properties[nextIndex m.properties 0]?) with
    | none => simp
    | some targetSubject => simp [setStringValue_snd]
  | pubSub | subRequest | terminate | other => simp

theorem unpack_junk_iff (target : MamaMsg) (node : Nat) {m : PnMessage K F} (h : m.body.Junk) :
    (∃ tmp, unpack accepts target node m = some (tmp, false)) ↔
      m.body = .binary [] ∨ m.Truncated := by
  unfold unpack
  cases hbody : m.body with
  | list f => rw [hbody] at h; exact h.elim
  | binary bytes =>
    rw [hbody] at h
    obtain rfl : bytes = [] := h
    simp
  | null | ubyte | string =>
    simp only [reduceCtorEq, false_or]; exact unpackProperties_false_iff target m

theorem subject_pack (bridgeMessage : BridgeMsg) (target : Target F) (raw : ProtonMessage F) :
    (pack bridgeMessage target raw).1.decode.subject = some bridgeMessage.mSendSubject.val := by
  cases target <;> rfl

theorem unpack_pack {first : Option (List UInt8)} (h : StartsWith e.mQpidRawMsg first)
    (hfirst : FirstValid accepts first) (node : Nat) (x : Packed accepts F) :
    ∃ mMsg, unpack accepts e.mMsg node (pack x.bridgeMessage x.target e.mQpidRawMsg).1.decode =
        some (mMsg, true) ∧
      mMsg.received
          (e.pool.setMsg node (pack x.bridgeMessage x.target e.mQpidRawMsg).1.decode).nodes =
        ⟨x.target.arriving first, x.bridgeMessage.metadata⟩ := by
  have hunpacks := unpacks_pack h hfirst x.published x.valid
  have hcontent := content_pack h x.published x.valid.isSome
  have hnode : ((e.pool.setMsg node
      (pack x.bridgeMessage x.target e.mQpidRawMsg).1.decode).nodes node).mMsg =
        (pack x.bridgeMessage x.target e.mQpidRawMsg).1.decode := by
    simp [MsgPool.setMsg]
  rw [← hnode] at hunpacks hcontent
  obtain ⟨mMsg, hunpack, hreceived⟩ := unpack_of_unpacks e.mMsg hunpacks
  rw [hnode] at hunpack
  rw [hcontent] at hreceived
  exact ⟨mMsg, hunpack, (Option.some.inj hreceived).symm⟩

theorem roundTrips_packed {first : Option (List UInt8)} (h : StartsWith e.mQpidRawMsg first)
    (hfirst : FirstValid accepts first) (node : Nat) (x : Packed accepts F)
    (ts : List (Nat × Transmission accepts F)) :
    ∃ e' : Ends F, StartsWith e'.mQpidRawMsg (x.target.first first) ∧
      (RoundTrips e ((node, .packed x) :: ts) ↔
        x.target.arriving first = x.target.payload ∧ RoundTrips e' ts) := by
  obtain ⟨mMsg, hunpack, hreceived⟩ := unpack_pack h hfirst node x
  refine ⟨⟨(pack x.bridgeMessage x.target e.mQpidRawMsg).2.2, e.pool.setMsg node
    (pack x.bridgeMessage x.target e.mQpidRawMsg).1.decode, mMsg⟩,
    startsWith_pack h _ _, ?_⟩
  constructor
  · rintro ⟨mMsg', hunpack', hreceived', -, hright⟩
    rw [hunpack] at hunpack'
    obtain ⟨rfl, -⟩ := Prod.mk.inj (Option.some.inj hunpack')
    rw [hreceived] at hreceived'
    exact ⟨congrArg Received.payload hreceived', hright⟩
  · rintro ⟨hpayload, hright⟩
    rw [hpayload] at hreceived
    exact ⟨mMsg, hunpack, hreceived, subject_pack _ _ _, hright⟩

theorem sameBytes_iff (first : Option (List UInt8)) (target : Target F) (rest : List (List UInt8)) :
    (∃ b, ∀ bytes ∈ first.toList ++ (target.buffers ++ rest), bytes = b) ↔
    target.arriving first = target.payload ∧ ∃ b, ∀ bytes ∈ (target.first first).toList ++ rest,
    bytes = b := by
  cases target with
  | qpid m => exact (and_iff_right rfl).symm
  | other bytes =>
    cases first with
    | none => exact (and_iff_right rfl).symm
    | some a =>
      show (∃ b, ∀ bs ∈ a :: bytes :: rest, bs = b) ↔
        some (.bytes a : Payload F) = some (.bytes bytes) ∧ ∃ b, ∀ bs ∈ a :: rest, bs = b
      rw [Option.some_inj, Payload.bytes.injEq]
      constructor
      · rintro ⟨b, hall⟩
        have ha := hall a mem_cons_self
        have hbytes := hall bytes (mem_cons_of_mem _ mem_cons_self)
        refine ⟨ha.trans hbytes.symm, b, fun bs hbs => ?_⟩
        rcases List.mem_cons.mp hbs with rfl | hmem
        · exact ha
        · exact hall bs (mem_cons_of_mem _ (mem_cons_of_mem _ hmem))
      · rintro ⟨rfl, b, hall⟩
        refine ⟨b, fun bs hbs => ?_⟩
        rcases List.mem_cons.mp hbs with rfl | hmem
        · exact hall bs mem_cons_self
        · exact hall bs hmem

theorem roundTrips_of_startsWith {first : Option (List UInt8)} (h : StartsWith e.mQpidRawMsg first)
    (hfirst : FirstValid accepts first) (ts : List (Nat × Transmission accepts F)) :
    RoundTrips e ts ↔ (∃ b, ∀ bytes ∈ first.toList ++ buffers ts, bytes = b) ∧
      ∀ t ∈ ts, t.2.Reported := by
  induction ts generalizing e first with
  | nil =>
    cases first with
    | none => simp [RoundTrips, buffers]
    | some a => simp [RoundTrips, buffers]
  | cons t ts ih =>
    obtain ⟨node, t⟩ := t
    cases t with
    | junk m hjunk =>
      have hiff := @unpack_junk_iff F accepts _ e.mMsg node m hjunk
      have hrest := fun mMsg => @ih ⟨e.mQpidRawMsg, e.pool.setMsg node m, mMsg⟩ first h hfirst
      rw [forall_mem_cons]
      show (∃ mMsg, unpack accepts e.mMsg node m = some (mMsg, false) ∧
          RoundTrips ⟨e.mQpidRawMsg, e.pool.setMsg node m, mMsg⟩ ts) ↔
        (∃ b, ∀ bytes ∈ first.toList ++ buffers ts, bytes = b) ∧
          (m.body = .binary [] ∨ m.Truncated) ∧ ∀ t ∈ ts, t.2.Reported
      rw [← hiff]
      constructor
      · rintro ⟨mMsg, hrun, hright⟩
        obtain ⟨hsame, hreported⟩ := (hrest mMsg).mp hright
        exact ⟨hsame, ⟨mMsg, hrun⟩, hreported⟩
      · rintro ⟨hsame, ⟨mMsg, hrun⟩, hreported⟩
        exact ⟨mMsg, hrun, (hrest mMsg).mpr ⟨hsame, hreported⟩⟩
    | packed x =>
      obtain ⟨e', hstarts, hiff⟩ := roundTrips_packed h hfirst node x ts
      rw [hiff, ih hstarts (hfirst.next x.valid), forall_mem_cons]
      show _ ↔ _ ∧ True ∧ _
      rw [true_and, ← and_assoc]
      exact and_congr_left fun _ => (sameBytes_iff first x.target (buffers ts)).symm

/-- All messages arrive as they were sent, and what is of no use is reported, just where one and the
same bytes were packed every time, and what is of no use is of none or has strings that are too
long. -/
theorem roundTrips_iff (pool : MsgPool (List UInt8) F) (mMsg : MamaMsg)
    (ts : List (Nat × Transmission accepts F)) : RoundTrips ⟨.new, pool, mMsg⟩ ts ↔
    (∃ b, ∀ bytes ∈ buffers ts, bytes = b) ∧ ∀ t ∈ ts, t.2.Reported := by
  have hfirst : FirstValid accepts none := fun bytes h => nomatch h
  exact roundTrips_of_startsWith startsWith_new hfirst ts

def plainPacked (bytes : List UInt8) (h : bytes ≠ []) : Packed (fun _ => true) Unit where
  bridgeMessage := .createMsgOnly
  target := .other bytes
  published := .inl rfl
  valid := ⟨h, rfl⟩

/-- The second of two payloads arrives as the first one, and a message with no body is delivered. -/
theorem not_roundTrips :
    ¬ RoundTrips ⟨.new, ⟨fun _ => ⟨.new, none, none, .pubSub, none⟩, 0, none, none, 0, 0⟩, .new⟩
        [(0, .packed (plainPacked [1] (by decide))), (0, .packed (plainPacked [2] (by decide)))] ∧
      ¬ RoundTrips ⟨.new, ⟨fun _ => ⟨.new, none, none, .pubSub, none⟩, 0, none, none, 0, 0⟩, .new⟩
        [(0, .packed (plainPacked [1] (by decide))), (0, .junk .new trivial)] := by
  have hfirst : FirstValid (fun _ => true) none := fun bytes h => nomatch h
  constructor
  · intro h
    obtain ⟨⟨b, hall⟩, -⟩ := (roundTrips_of_startsWith startsWith_new hfirst _).mp h
    have hone : ([1] : List UInt8) = b := hall _ mem_cons_self
    have htwo : ([2] : List UInt8) = b := hall _ (mem_cons_of_mem _ mem_cons_self)
    cases hone.trans htwo.symm
  · intro h
    obtain ⟨-, hreported⟩ := (roundTrips_of_startsWith startsWith_new hfirst _).mp h
    rcases hreported _ (mem_cons_of_mem _ mem_cons_self) with hbody | htruncated
    · cases hbody
    · exact htruncated

end Qpid

end Mama
