import OpenMama.Mama.GapFilling
import OpenMama.Mama.InitialImage
import Mathlib.Data.List.Infix

/-!
# `dqpublisher`, and what a subscription makes of its numbers

`mamaDQPublisher_send` numbers messages; one switch over the type of a message decides whether the
number goes up.  The subscriber decides with switches of its own which numbers it checks
(`listenerMsgCallback_processMsg`, `dqStrategy_checkSeqNum`).  The two go together exactly as long
as every message that is checked is one ahead of the latest number that the subscriber took over
(`agrees_iff`).

The application leaves the number, the sender and the conflate count of a message to the publisher;
a message without a status reads as one whose status is unknown.
-/

namespace Mama

open List

namespace Dq

/-! ## The publisher -/

inductive SentType
  | syncRequest
  | known (type : MsgType)
  deriving DecidableEq, Repr

def SentType.msgType : SentType → MsgType
  | .syncRequest => .other
  | .known type => type

structure Outgoing where
  type : SentType
  status : MsgStatus
  msgTotal : Int
  msgNum : Int
  deriving DecidableEq

/-- `mamaDQPublisherImpl`. -/
structure DQPublisher where
  mStatus : MsgStatus
  mSenderId : UInt64
  mSeqNum : UInt32

/-- The message with the number, sender and status that it is given. -/
def Outgoing.toMsg (m : Outgoing) (seqNum : UInt32) (senderId : UInt64) (status : MsgStatus) :
    Msg where
  msgType := m.type.msgType
  seqNum := seqNum
  senderId := senderId
  conflateCount := none
  status := status
  msgTotal := m.msgTotal
  msgNum := m.msgNum

/-- The switch of `mamaDQPublisher_send`: whether the status is written, and whether the number goes
up. -/
def SentType.numbering : SentType → Bool × Bool
  | .syncRequest => (false, false)
  | .known .refresh | .known .misc | .known .notPermissioned | .known .notFound => (false, false)
  | .known .initial | .known .bookInitial | .known .recap | .known .bookRecap => (true, false)
  | .known _ => (true, true)

namespace DQPublisher

/-- `mamaDQPublisher_send`. -/
def send (pub : DQPublisher) (m : Outgoing) : DQPublisher × Msg :=
  if pub.mSeqNum ≠ 0 then
    let (writes, advances) := m.type.numbering
    let pub := if advances then { pub with mSeqNum := pub.mSeqNum + 1 } else pub
    (pub, m.toMsg pub.mSeqNum pub.mSenderId (if writes then pub.mStatus else m.status))
  else (pub, m.toMsg 0 pub.mSenderId m.status)

/-- `mamaDQPublisher_sendReply` and `mamaDQPublisher_sendReplyWithHandle`. -/
def sendReply (pub : DQPublisher) (m : Outgoing) : Msg :=
  if pub.mSeqNum ≠ 0 then m.toMsg pub.mSeqNum pub.mSenderId pub.mStatus
  else m.toMsg 0 pub.mSenderId m.status

end DQPublisher

inductive Sending
  | send (m : Outgoing)
  | sendReply (m : Outgoing)
  | sendReplyWithHandle (m : Outgoing)
  deriving DecidableEq

/-- The publisher afterwards, and the message on its way. -/
def DQPublisher.publish (pub : DQPublisher) : Sending → DQPublisher × Msg
  | .send m => pub.send m
  | .sendReply m | .sendReplyWithHandle m => (pub, pub.sendReply m)

/-- A publisher and a subscription that gets all its messages. -/
structure Line where
  pub : DQPublisher
  sub : Subscription

/-- The statuses with which a message is not looked at further. -/
def MsgStatus.isError (status : MsgStatus) : Bool :=
  status ∈ [.notPermissioned, .badSymbol, .expired, .notFound, .timeout, .noSubscribers,
    .bandwidthExceeded, .unknown]

namespace Line

/-- A message is published and delivered; what the subscription does. -/
def deliver (l : Line) (s : Sending) : Line × Msg × List Act :=
  let (pub, m) := l.pub.publish s
  let (sub, acts) := l.sub.processMsg m
  (⟨pub, sub⟩, m, acts)

def next (l : Line) (s : Sending) : Line := (l.deliver s).1

/-! ## What is expected of it -/

/-- The subscriber hears of no gap, asks for no recap and reports neither duplicates nor
staleness. -/
def Undisturbed (acts : List Act) : Prop :=
  .onGap ∉ acts ∧ .recapRequest ∉ acts ∧ .onQuality .duplicate ∉ acts ∧ .onQuality .stale ∉ acts

/-- The message is neither an error nor one that is meant for the subscription itself. -/
def IsData (m : Msg) : Prop :=
  m.status.isError = false ∧
    m.msgType ∉ [.refresh, .delete, .expire, .notPermissioned, .notFound, .unknown]

def Delivers (l : Line) (s : Sending) : Prop :=
  Undisturbed (l.deliver s).2.2 ∧
    (IsData (l.deliver s).2.1 → .forward (l.deliver s).2.1 ∈ (l.deliver s).2.2)

def DeliversAll (l : Line) (ss : List Sending) : Prop :=
  ∀ pre s suf, ss = pre ++ s :: suf → Delivers (pre.foldl next l) s

end Line

/-! ## When it holds -/

/-- What the subscriber does with the number of a message. -/
inductive Numbering
  | takesOver
  /-- The number has to be the next one; a message that comes to an inbox is forwarded anyway. -/
  | checks (pointToPoint : Bool)
  | refuses
  | skips
  deriving DecidableEq

/-- Images have their number taken over; messages for the subscription itself and the dictionary are
not checked. -/
def MsgType.numbering : MsgType → Numbering
  | .initial | .bookInitial | .recap | .bookRecap => .takesOver
  | .refresh | .delete | .expire | .notPermissioned | .notFound | .unknown | .ddictSnapshot =>
    .skips
  | .snapshot | .bookSnapshot => .checks true
  | _ => .checks false

/-- An error is not looked at further; a number that is checked is right only with the status OK. -/
def numberingOf (type : MsgType) (status : MsgStatus) : Numbering :=
  if status.isError then .skips
  else
    match type.numbering with
    | .checks pointToPoint => if status = .ok then .checks pointToPoint else .refuses
    | n => n

/-- Whether the number goes up, and what the subscriber does with it. -/
def Sending.numbering : Sending → Bool × Numbering
  | .send m =>
    (m.type.numbering.2,
      numberingOf m.type.msgType (if m.type.numbering.1 then .ok else m.status))
  | .sendReply m | .sendReplyWithHandle m => (false, numberingOf m.type.msgType .ok)

/-- Every number that is checked is one ahead of the subscriber's, which is `behind` behind the
publisher's at first; where late messages are ignored, one that comes to an inbox may also repeat
the subscriber's number. -/
def Agrees (t : Transport) : ℕ → List Sending → Prop
  | _, [] => True
  | behind, s :: ss =>
    let behind := if s.numbering.1 then behind + 1 else behind
    match s.numbering.2 with
    | .takesOver => Agrees t 0 ss
    | .checks pointToPoint =>
      (behind = 1 ∨ (behind = 0 ∧ pointToPoint ∧ t.dqScheme = .ignoreDups)) ∧ Agrees t 0 ss
    | .refuses => False
    | .skips => Agrees t behind ss

def Sending.message : Sending → Outgoing
  | .send m | .sendReply m | .sendReplyWithHandle m => m

def Outgoing.IsInitialImage (m : Outgoing) : Prop :=
  (m.type = .known .initial ∨ m.type = .known .bookInitial) ∧
    (m.msgTotal = 0 ∨ m.msgNum = m.msgTotal)

def DQPublisher.after (pub : DQPublisher) (s : Sending) : DQPublisher := (pub.publish s).1

/-! ## The check of a number -/

namespace Line

theorem undisturbed_append {as bs : List Act} :
    Undisturbed (as ++ bs) ↔ Undisturbed as ∧ Undisturbed bs := by
  unfold Undisturbed
  simp only [mem_append, not_or]
  tauto

theorem undisturbed_forward (ms : List Msg) : Undisturbed (ms.map .forward) := by
  unfold Undisturbed
  simp

end Line

open Line (Undisturbed)

namespace Step

theorem undisturbed_resetDqState {x : Step} (h : Undisturbed x.acts) :
    Undisturbed x.resetDqState.acts := by
  unfold resetDqState
  split
  · refine Line.undisturbed_append.2 ⟨h, ?_⟩
    unfold Undisturbed
    simp
  · exact h

theorem undisturbed_unset {x : Step} (h : Undisturbed x.acts) :
    Undisturbed (x.emit .unsetAllPossiblyStale).acts := by
  refine Line.undisturbed_append.2 ⟨h, ?_⟩
  unfold Undisturbed
  simp

theorem resetDqState_ctx (x : Step) : x.resetDqState.ctx = { x.ctx with dqState := .ok } := by
  unfold resetDqState
  split <;> rfl

theorem checkUpdate_accepted (t : Transport) (old : Context) (x : Step)
    (hnext : IsNext old x.msg) (hok : x.msg.status = .ok) (hclear : x.ctx.clearCache = x.ctx) :
    (checkUpdate t old x).ctx = { x.ctx with dqState := .ok, seqNum := x.msg.seqNum } ∧
      (checkUpdate t old x).msg = x.msg ∧
      (Undisturbed x.acts → Undisturbed (checkUpdate t old x).acts) := by
  have hplain : checkUpdate t old (x.withFlag false) =
      (((x.withFlag false).emit .unsetAllPossiblyStale).resetDqState.setCtx fun c =>
        { c with seqNum := x.msg.seqNum }) := by
    have hcond : (old.dqState = .notEstablished ∨ (x.withFlag false).msg.seqNum = 0 ∨
        (x.withFlag false).msg.seqNum = old.seqNum + (x.withFlag false).msg.conflateCnt) ∧
        (old.dqState ≠ .waitingForRecap ∨ old.dqState ≠ .waitingForRecapAfterFt) :=
      ⟨hnext, ne_or_ne _⟩
    have hflag : (if (x.withFlag false).tryToFillGap then
        { (x.withFlag false).setCtx Context.clearCache with tryToFillGap := false }
        else x.withFlag false) = x.withFlag false := rfl
    have hok' : ((x.withFlag false).emit .unsetAllPossiblyStale).msg.status = .ok := hok
    rw [checkUpdate, if_pos hcond, hflag]
    rw [if_pos hok']
    rfl
  rw [checkUpdate_next t old hnext hclear, hplain]
  refine ⟨?_, resetDqState_msg _, fun h => ?_⟩
  · show { (((x.withFlag false).emit .unsetAllPossiblyStale).resetDqState).ctx with
      seqNum := x.msg.seqNum } = _
    rw [resetDqState_ctx]
    rfl
  · exact undisturbed_resetDqState (undisturbed_unset h)

theorem checkRecap_eq (t : Transport) (x : Step) :
    (checkRecap t x).ctx = { x.ctx with
        seqNum := x.msg.seqNum, senderId := x.msg.senderId, dqState := .ok, doNotForward :=
          false } ∧
      (checkRecap t x).msg = x.msg ∧
      (Undisturbed x.acts → Undisturbed (checkRecap t x).acts) := by
  have hset : ∀ z : Step, z =
      (if t.preRecapCacheEnabled then { x with tryToFillGap := true } else x) →
      z.ctx = x.ctx ∧ z.msg = x.msg ∧ z.acts = x.acts := by
    rintro z rfl
    split <;> exact ⟨rfl, rfl, rfl⟩
  unfold checkRecap
  generalize hz : (if t.preRecapCacheEnabled then { x with tryToFillGap := true } else x) = z
  obtain ⟨hctx, hmsg, hacts⟩ := hset z hz.symm
  have hreset := resetDqState_msg (z.emit .unsetAllPossiblyStale)
  refine ⟨?_, hreset.trans hmsg, fun h => ?_⟩
  · show { (z.emit .unsetAllPossiblyStale).resetDqState.ctx with
      seqNum := z.msg.seqNum, senderId := z.msg.senderId, doNotForward := false } = _
    rw [resetDqState_ctx, ← hctx, ← hmsg]
    rfl
  · refine undisturbed_resetDqState (undisturbed_unset (?_ : Undisturbed z.acts))
    rwa [hacts]

end Step

/-! ## A settled subscription -/

namespace Subscription

/-- The initial image is there, nothing is amiss, and the ring is empty; the latest number is
`n`. -/
structure Settled (x : Subscription) (sender : UInt64) (n : UInt32) : Prop where
  recoverGaps : x.recoverGaps
  arrived : x.initialArrived
  state : x.dq.ctx.dqState = .ok ∨ x.dq.ctx.dqState = .possiblyStale
  seqNum : x.dq.ctx.seqNum = n
  senderId : x.dq.ctx.senderId = sender
  empty : x.dq.ctx.clearCache = x.dq.ctx
  unmarked : x.dq.ctx.setCacheMsgStale = false

variable {x : Subscription} {m : Msg} {sender : UInt64} {n : UInt32}

section

variable (h : x.Settled sender n)

include h

theorem Settled.caches : x.caches m = false := by
  rw [Subscription.caches, h.arrived]
  rcases h.state with hstate | hstate <;> simp [hstate]

theorem Settled.withCtx {c : Context} {f : Bool}
    (hstate : c.dqState = .ok ∨ c.dqState = .possiblyStale)
    (hcache : c.cache = x.dq.ctx.cache) (hidx : c.curCacheIdx = x.dq.ctx.curCacheIdx)
    (hmark : c.setCacheMsgStale = x.dq.ctx.setCacheMsgStale) (hsender : c.senderId = sender) :
    ({ x with dq := ⟨c, f⟩ } : Subscription).Settled sender c.seqNum where
  recoverGaps := h.recoverGaps
  arrived := h.arrived
  state := hstate
  seqNum := rfl
  senderId := hsender
  empty := by
    have hempty := Context.clearCache_eq_self.1 h.empty
    rw [← hcache, ← hidx] at hempty
    exact Context.clearCache_eq_self.2 hempty
  unmarked := hmark.trans h.unmarked

theorem Settled.withMark (b f : Bool) :
    ({ x with dq := ⟨{ x.dq.ctx with doNotForward := b }, f⟩ } : Subscription).Settled sender
      n := by
  have hkept := h.withCtx (c := { x.dq.ctx with doNotForward := b }) (f := f) h.state rfl rfl rfl
    h.senderId
  rwa [show ({ x.dq.ctx with doNotForward := b } : Context).seqNum = n from h.seqNum] at hkept

theorem Settled.setPossiblyStale :
    x.setPossiblyStale.1.Settled sender n ∧ Undisturbed x.setPossiblyStale.2 := by
  unfold Subscription.setPossiblyStale
  split
  · refine ⟨?_, ?_⟩
    · have hkept := h.withCtx (c := { x.dq.ctx with dqState := .possiblyStale })
        (f := x.dq.tryToFillGap) (.inr rfl) rfl rfl rfl h.senderId
      rwa [show ({ x.dq.ctx with dqState := .possiblyStale } : Context).seqNum = n from h.seqNum]
        at hkept
    · unfold Undisturbed; simp
  · refine ⟨h, ?_⟩
    unfold Undisturbed
    simp

theorem Settled.check (hm : m.senderId = sender) :
    x.dq.ctx.takenOver m = false ∧
      x.checkSeqNum m =
        let y := Step.checkType x.transport x.dq.ctx
          ⟨{ x.dq.ctx with doNotForward := false }, x.dq.tryToFillGap, m, []⟩
        ({ x with dq := ⟨y.ctx, y.tryToFillGap⟩ }, y.msg, y.acts) := by
  have htook : x.dq.ctx.takenOver m = false := by simp [Context.takenOver, h.senderId, hm]
  have henter : x.dq.enter m =
      ⟨{ x.dq.ctx with doNotForward := false }, x.dq.tryToFillGap, m, []⟩ := by
    rw [Strategy.enter, Context.entered, htook]
    rfl
  refine ⟨htook, ?_⟩
  unfold Subscription.checkSeqNum
  rw [if_pos h.recoverGaps, Strategy.check_eq,
    if_neg fun ht => Bool.noConfusion (htook.symm.trans ht.1),
    henter]

structure Accepts (x : Subscription) (m : Msg) (sender : UInt64) (n : UInt32) (forwards : Bool)
    (r : Result) : Prop where
  settled : r.1.Settled sender n
  msg : r.2.1 = m
  doNotForward : r.1.dq.ctx.doNotForward = !forwards
  undisturbed : Undisturbed r.2.2
  transport : r.1.transport = x.transport

omit h in
theorem undisturbed_nil : Undisturbed [] := by
  unfold Line.Undisturbed
  simp

theorem Settled.check_image (hm : m.senderId = sender) (htype : m.msgType.isImage)
    (hok : m.status = .ok) : x.Accepts m sender m.seqNum true (x.checkSeqNum m) := by
  obtain ⟨-, hcheck⟩ := h.check hm
  rw [hcheck]
  have hfine : ¬ (m.status = .possiblyStale ∨ m.status = .stale) := by
    rw [hok]
    rintro (h | h) <;> cases h
  have hrecap : ∃ f, Step.checkType x.transport x.dq.ctx
      ⟨{ x.dq.ctx with doNotForward := false }, x.dq.tryToFillGap, m, []⟩ =
        Step.checkRecap x.transport ⟨{ x.dq.ctx with doNotForward := false }, f, m, []⟩ := by
    rw [Step.checkType, Step.checkInitial, if_neg hfine]
    cases hmsg : m.msgType <;> rw [hmsg] at htype <;> try cases htype
    all_goals exact ⟨_, rfl⟩
  obtain ⟨f, hrecap⟩ := hrecap
  obtain ⟨hctx, hmsg, hacts⟩ := Step.checkRecap_eq x.transport
    ⟨{ x.dq.ctx with doNotForward := false }, f, m, []⟩
  rw [hrecap]
  dsimp only
  refine ⟨?_, hmsg, ?_, hacts undisturbed_nil, rfl⟩
  · rw [hctx]; exact h.withCtx (.inl rfl) rfl rfl rfl hm
  · rw [hctx]; rfl

theorem Settled.check_dictionary (hm : m.senderId = sender) (htype : m.msgType = .ddictSnapshot) :
    x.Accepts m sender n true (x.checkSeqNum m) := by
  obtain ⟨-, hcheck⟩ := h.check hm
  have hkept : Step.checkType x.transport x.dq.ctx
      ⟨{ x.dq.ctx with doNotForward := false }, x.dq.tryToFillGap, m, []⟩ =
        ⟨{ x.dq.ctx with doNotForward := false }, x.dq.tryToFillGap, m, []⟩ := by
    rw [Step.checkType, htype]
  rw [hcheck, hkept]
  exact ⟨h.withMark _ _, rfl, rfl, undisturbed_nil, rfl⟩

omit h in
theorem conflateCnt_none {m : Msg} (h : m.conflateCount = none) : m.conflateCnt = 1 := by
  rw [Msg.conflateCnt, h]
  cases m.msgType <;> rfl

theorem Settled.isNext_iff (hconflate : m.conflateCount = none)
    (hzero : m.seqNum ≠ 0) : IsNext x.dq.ctx m ↔ m.seqNum = n + 1 := by
  rw [IsNext, h.seqNum, conflateCnt_none hconflate]
  rcases h.state with hstate | hstate <;> simp [hstate, hzero]

theorem Settled.check_next (hm : m.senderId = sender)
    (himage : m.msgType.isImage = false) (hddict : m.msgType ≠ .ddictSnapshot)
    (hconflate : m.conflateCount = none) (hzero : m.seqNum ≠ 0) (hok : m.status = .ok)
    (hnext : m.seqNum = n + 1) : x.Accepts m sender m.seqNum true (x.checkSeqNum m) := by
  obtain ⟨-, hcheck⟩ := h.check hm
  have hclear : ({ x.dq.ctx with doNotForward := false } : Context).clearCache =
      { x.dq.ctx with doNotForward := false } := (h.withMark false x.dq.tryToFillGap).empty
  obtain ⟨hctx, hmsg, hacts⟩ := Step.checkUpdate_accepted x.transport x.dq.ctx
    ⟨{ x.dq.ctx with doNotForward := false }, x.dq.tryToFillGap, m, []⟩
    ((h.isNext_iff hconflate hzero).2 hnext) hok hclear
  rw [hcheck, Strategy.checkType_update himage hddict]
  dsimp only
  refine ⟨?_, hmsg, ?_, hacts undisturbed_nil, rfl⟩
  · rw [hctx]; exact h.withCtx (.inl rfl) rfl rfl rfl h.senderId
  · rw [hctx]; rfl

/-- A number that is checked, and is another one: the client hears of it, or the message is late and
ignored. -/
theorem Settled.check_other (hm : m.senderId = sender) (himage : m.msgType.isImage = false)
    (hddict : m.msgType ≠ .ddictSnapshot) (hconflate : m.conflateCount = none)
    (hzero : m.seqNum ≠ 0) (hother : ¬ (m.seqNum = n + 1 ∧ m.status = .ok)) :
    if x.transport.dqScheme = .ignoreDups ∧
    m.seqNum ≤ n then x.Accepts m sender n false (x.checkSeqNum m) ∧ ∀ k,
    .forward k ∉ (x.checkSeqNum m).2.2 else ¬ Undisturbed (x.checkSeqNum m).2.2 := by
  obtain ⟨-, hcheck⟩ := h.check hm
  have hnext := h.isNext_iff hconflate hzero
  have hstate := ne_or_ne x.dq.ctx.dqState
  have hawaits : x.dq.ctx.dqState ≠ .waitingForRecapAfterFt := by
    rcases h.state with hstate | hstate <;> simp [hstate]
  rw [hcheck, Strategy.checkType_update himage hddict]
  split_ifs with hlate
  · have hpast : ¬ IsNext x.dq.ctx m := by
      rw [hnext]
      intro heq
      have hle := hlate.2
      rw [UInt32.le_iff_toNat_le] at hle
      have hne : m.seqNum.toNat ≠ 0 := fun h0 => hzero (UInt32.toNat_inj.1 h0)
      rw [heq] at hle hne
      have hbound := n.toNat_lt
      simp at hle hne
      omega
    have hignored : Step.checkUpdate x.transport x.dq.ctx
        ⟨{ x.dq.ctx with doNotForward := false }, x.dq.tryToFillGap, m, []⟩ =
          ⟨{ x.dq.ctx with doNotForward := true }, x.dq.tryToFillGap, m, []⟩ := by
      rw [Step.checkUpdate_late x.transport x.dq.ctx hpast]
      rw [Step.checkDuplicate, if_pos ⟨hlate.1, by rw [h.seqNum]; exact hlate.2, hstate⟩]
      rfl
    rw [hignored]
    exact ⟨⟨h.withMark _ _, rfl, rfl, undisturbed_nil, rfl⟩, fun k => by simp⟩
  by_cases hsame : m.seqNum = n
  · have hpast : ¬ IsNext x.dq.ctx m := by
      rw [hnext, hsame]
      intro heq
      have hnat := congrArg UInt32.toNat heq
      simp at hnat
      omega
    rw [Step.checkUpdate_late x.transport x.dq.ctx hpast]
    rw [Step.checkDuplicate, if_neg fun hi => hlate ⟨hi.1, by rw [← h.seqNum]; exact hi.2.1⟩,
      if_pos ⟨hsame.trans h.seqNum.symm, hawaits⟩]
    intro hcalm
    exact hcalm.2.2.1 (mem_append_right _ (mem_singleton_self _))
  obtain ⟨hverdict, -, -⟩ := Step.checkUpdate_verdict x.transport x.dq.ctx
    ⟨{ x.dq.ctx with doNotForward := false }, x.dq.tryToFillGap, m, []⟩
  intro hcalm
  cases hverdict with
  | accepted next statusOk => exact hother ⟨hnext.1 next, statusOk⟩
  | ignored _ ignored => exact hlate ⟨ignored.1, by rw [← h.seqNum]; exact ignored.2⟩
  | duplicate _ _ same => exact hsame (same.trans h.seqNum)
  | held _ _ before => exact hawaits before
  | filled _ _ _ _ filled =>
    have hclear : ({ x.dq.ctx with doNotForward := false } : Context).clearCache =
        { x.dq.ctx with doNotForward := false } := (h.withMark false x.dq.tryToFillGap).empty
    have hfill := filled.2.2
    rw [Context.fillGap_of_clear hclear h.unmarked] at hfill
    cases hfill
  | gap _ _ _ _ _ _ _ _ _ onGap => exact hcalm.1 onGap

/-! ## One message for a settled subscription -/

/-- What a message that is delivered as it should be leaves. -/
structure Takes (x : Subscription) (m : Msg) (sender : UInt64) (n : UInt32)
    (r : Subscription × List Act) : Prop where
  settled : r.1.Settled sender n
  undisturbed : Undisturbed r.2
  forwards : Line.IsData m → .forward m ∈ r.2
  transport : r.1.transport = x.transport

theorem Settled.applyPreInitialCache : x.dq.ctx.applyPreInitialCache = (x.dq.ctx, []) := by
  have hnone : x.dq.ctx.cache.take x.dq.ctx.curCacheIdx = [] := by
    rcases Context.clearCache_eq_self.1 h.empty with hcache | ⟨-, hidx⟩
    · rw [hcache, take_nil]
    · rw [hidx, take_zero]
  rw [Context.applyPreInitialCache, hnone]
  rfl

def reached (x : Subscription) (m : Msg) : Subscription :=
  if m.msgTotal = 0 ∨ m.msgNum = m.msgTotal then
    let x := { x with imageCount := x.imageCount + 1, initialArrived := true }
    if x.acceptMultipleInitials then x else x.stopWaitForResponse
  else x

def told (x : Subscription) (m : Msg) : List Act :=
  (if !x.expectsUpdates && !x.acceptMultipleInitials then [.deactivate] else []) ++ [.forward m]

def applied (x : Subscription) : Subscription :=
  { x with dq := { x.dq with ctx := x.dq.ctx.applyPreInitialCache.1.clearCache } }

omit h in
theorem processPointToPointMessage_reached (x : Subscription) (m : Msg) :
    x.processPointToPointMessage m =
      if appliesCache ((x.reached m).checkSeqNum m).1.transport m.msgType then
        (((x.reached m).checkSeqNum m).1.applied, ((x.reached m).checkSeqNum m).2.2 ++
          told ((x.reached m).checkSeqNum m).1 ((x.reached m).checkSeqNum m).2.1 ++
          ((x.reached m).checkSeqNum m).1.dq.ctx.applyPreInitialCache.2)
      else (((x.reached m).checkSeqNum m).1, ((x.reached m).checkSeqNum m).2.2 ++
        told ((x.reached m).checkSeqNum m).1 ((x.reached m).checkSeqNum m).2.1) := by
  rw [told, ← append_assoc]
  rfl

theorem Settled.reached (m : Msg) :
    (x.reached m).Settled sender n ∧ (x.reached m).transport = x.transport := by
  obtain ⟨hrecover, harrived, hstate, hseq, hsender, hempty, hmark⟩ := h
  unfold Subscription.reached
  dsimp only
  split_ifs
  · exact ⟨⟨hrecover, rfl, hstate, hseq, hsender, hempty, hmark⟩, rfl⟩
  · exact ⟨⟨hrecover, rfl, hstate, hseq, hsender, hempty, hmark⟩, rfl⟩
  · exact ⟨⟨hrecover, harrived, hstate, hseq, hsender, hempty, hmark⟩, rfl⟩

theorem Settled.applied : x.applied = x := by
  rw [Subscription.applied, h.applyPreInitialCache]
  rw [h.empty]

omit h in
theorem undisturbed_told (x : Subscription) (m : Msg) : Undisturbed (x.told m) := by
  unfold told Line.Undisturbed
  split_ifs <;> simp

variable {k : UInt32}

theorem Settled.pointToPoint_takes {forwards : Bool}
    (hcheck : ∀ y : Subscription, y.Settled sender n → y.transport = x.transport →
      y.Accepts m sender k forwards (y.checkSeqNum m)) :
    x.Takes m sender k (x.processPointToPointMessage m) := by
  obtain ⟨hreached, htransport⟩ := h.reached m
  obtain ⟨hsettled, hmsg, -, hcalm, hkept⟩ := hcheck _ hreached htransport
  have hacts : Undisturbed (((x.reached m).checkSeqNum m).2.2 ++
      told ((x.reached m).checkSeqNum m).1 ((x.reached m).checkSeqNum m).2.1) :=
    Line.undisturbed_append.2 ⟨hcalm, undisturbed_told _ _⟩
  have hforwards : .forward m ∈ ((x.reached m).checkSeqNum m).2.2 ++
      told ((x.reached m).checkSeqNum m).1 ((x.reached m).checkSeqNum m).2.1 := by
    rw [hmsg]
    exact mem_append_right _ (mem_append_right _ (mem_singleton_self _))
  rw [processPointToPointMessage_reached]
  split_ifs
  · rw [hsettled.applied, hsettled.applyPreInitialCache, append_nil]
    exact ⟨hsettled, hacts, fun _ => hforwards, hkept.trans htransport⟩
  · exact ⟨hsettled, hacts, fun _ => hforwards, hkept.trans htransport⟩

omit h in
theorem pointToPoint_disturbed (h : ¬ Undisturbed ((x.reached m).checkSeqNum m).2.2) :
    ¬ Undisturbed (x.processPointToPointMessage m).2 := by
  intro hcalm
  rw [processPointToPointMessage_reached] at hcalm
  split_ifs at hcalm
  · exact h (Line.undisturbed_append.1 (Line.undisturbed_append.1 hcalm).1).1
  · exact h (Line.undisturbed_append.1 hcalm).1

omit h in
theorem checkAndForward_takes (h : x.Accepts m sender k true (x.checkSeqNum m)) :
    x.Takes m sender k (x.checkAndForward m) := by
  obtain ⟨hsettled, hmsg, hforward, hcalm, hkept⟩ := h
  unfold checkAndForward
  dsimp only
  rw [hforward, hmsg]
  refine ⟨hsettled, ?_, fun _ => ?_, hkept⟩
  · exact Line.undisturbed_append.2 ⟨hcalm, Line.undisturbed_forward [m]⟩
  · exact mem_append_right _ (mem_singleton_self _)

def Meets (m : Msg) (r : Subscription × List Act) : Prop :=
  Undisturbed r.2 ∧ (Line.IsData m → .forward m ∈ r.2)

omit h in
theorem Takes.meets {r : Subscription × List Act} (h : x.Takes m sender n r) : Meets m r :=
  ⟨h.undisturbed, h.forwards⟩

/-- What is done to one message, by its kind; its number is `behind` ahead. -/
def Handles (x : Subscription) (m : Msg) (sender : UInt64) (n : UInt32) (behind : ℕ)
    (r : Subscription × List Act) : Numbering → Prop
  | .takesOver => x.Takes m sender m.seqNum r
  | .checks pointToPoint =>
    if behind = 1 ∨ (behind = 0 ∧ pointToPoint ∧ x.transport.dqScheme = .ignoreDups) then
      x.Takes m sender m.seqNum r
    else ¬ Meets m r
  | .refuses => ¬ Meets m r
  | .skips => x.Takes m sender n r

theorem Settled.invokeErrorCallback (error : Error)
    (hdata : ¬ Line.IsData m) : x.Takes m sender n (x.invokeErrorCallback error) := by
  obtain ⟨hrecover, harrived, hstate, hseq, hsender, hempty, hmark⟩ := h
  refine ⟨⟨hrecover, harrived, hstate, hseq, hsender, hempty, hmark⟩, ?_,
    fun hd => absurd hd hdata, rfl⟩
  unfold Subscription.invokeErrorCallback Line.Undisturbed
  simp

omit h in
theorem eq_next_iff {n : UInt32} {behind : ℕ} (hahead : k.toNat = n.toNat + behind) :
    k = n + 1 ↔ behind = 1 := by
  have hbound := k.toNat_lt
  rw [← UInt32.toNat_inj]
  simp
  omega

section

variable (hm : m.senderId = sender)

include hm

section

variable (hconflate : m.conflateCount = none)

include hconflate

section

variable (hzero : m.seqNum ≠ 0)

include hzero

theorem Settled.processPointToPointMessage (hok : m.status = .ok)
    (hpoint : isInitialMessageOrRecap m.msgType) {behind : ℕ}
    (hahead : m.seqNum.toNat = n.toNat + behind) :
    x.Handles m sender n behind (x.processPointToPointMessage m) m.msgType.numbering := by
  have himage : ∀ y : Subscription, m.msgType.isImage → y.Settled sender n →
      y.transport = x.transport → y.Accepts m sender m.seqNum true (y.checkSeqNum m) :=
    fun y himage hy _ => hy.check_image hm himage hok
  have hsnapshot : m.msgType.isImage = false → m.msgType ≠ .ddictSnapshot →
      x.Handles m sender n behind (x.processPointToPointMessage m) (.checks true) := by
    intro himage hddict
    have hreached := (h.reached m).1
    have hone := eq_next_iff hahead
    unfold Handles
    dsimp only
    split_ifs with hright
    · by_cases hnext : behind = 1
      · exact h.pointToPoint_takes fun y hy _ =>
          hy.check_next hm himage hddict hconflate hzero hok (hone.2 hnext)
      obtain ⟨rfl, -, hscheme⟩ := hright.resolve_left hnext
      have hseq : m.seqNum = n := UInt32.toNat_inj.1 hahead
      have hcheck : ∀ y : Subscription, y.Settled sender n → y.transport = x.transport →
          y.Accepts m sender m.seqNum false (y.checkSeqNum m) := by
        intro y hy htransport
        have hother := hy.check_other hm himage hddict hconflate hzero
          fun hn => hnext (hone.1 hn.1)
        rw [htransport, if_pos ⟨hscheme, hseq ▸ UInt32.le_refl _⟩] at hother
        exact hseq ▸ hother.1
      exact h.pointToPoint_takes hcheck
    rw [not_or, not_and, not_and] at hright
    have hother := hreached.check_other hm himage hddict hconflate hzero
      fun hn => hright.1 (hone.1 hn.1)
    rw [(h.reached m).2, if_neg] at hother
    · exact fun hmeets => pointToPoint_disturbed hother hmeets.1
    · rintro ⟨hscheme, hle⟩
      rw [UInt32.le_iff_toNat_le] at hle
      exact hright.2 (by omega) rfl hscheme
  cases htype : m.msgType <;> rw [htype] at hpoint <;> try cases hpoint
  case initial | recap | bookInitial | bookRecap =>
    exact h.pointToPoint_takes fun y hy ht => himage y (by rw [htype]; rfl) hy ht
  case snapshot | bookSnapshot => exact hsnapshot (by rw [htype]; rfl) (by rw [htype]; decide)
  case ddictSnapshot => exact h.pointToPoint_takes fun y hy _ => hy.check_dictionary hm htype

theorem Settled.checkAndForward
    (himage : m.msgType.isImage = false) (hddict : m.msgType ≠ .ddictSnapshot)
    (hdata : Line.IsData m) {behind : ℕ} (hahead : m.seqNum.toNat = n.toNat + behind) :
    x.Handles m sender n behind (x.checkAndForward m)
      (if m.status = .ok then .checks false else .refuses) := by
  have hone := eq_next_iff hahead
  have hfails : ¬ (m.seqNum = n + 1 ∧ m.status = .ok) → ¬ Meets m (x.checkAndForward m) := by
    intro hnot hmeets
    have hother := h.check_other hm himage hddict hconflate hzero hnot
    split_ifs at hother with hlate
    · -- a late message is not forwarded
      obtain ⟨haccepts, hnone⟩ := hother
      have hforward := hmeets.2 hdata
      unfold Subscription.checkAndForward at hforward
      dsimp only at hforward
      rw [haccepts.doNotForward] at hforward
      exact hnone m hforward
    refine hother ?_
    have hcalm := hmeets.1
    unfold Subscription.checkAndForward at hcalm
    dsimp only at hcalm
    split_ifs at hcalm
    · exact hcalm
    · exact (Line.undisturbed_append.1 hcalm).1
  split_ifs with hok
  · unfold Handles
    simp only [Bool.false_eq_true, false_and, and_false, or_false]
    split_ifs with hnext
    · exact checkAndForward_takes
        (h.check_next hm himage hddict hconflate hzero hok (hone.2 hnext))
    · exact hfails fun hn => hnext (hone.1 hn.1)
  · exact hfails fun hn => hok hn.2

theorem Settled.processType (herror : m.status.isError = false)
    (hpoint : isInitialMessageOrRecap m.msgType → m.status = .ok) {behind : ℕ}
    (hahead : m.seqNum.toNat = n.toNat + behind) :
    x.Handles m sender n behind (x.processType m) (numberingOf m.msgType m.status) := by
  have hnumbering : numberingOf m.msgType m.status =
      match m.msgType.numbering with
      | .checks pointToPoint => if m.status = .ok then .checks pointToPoint else .refuses
      | k => k := by
    rw [numberingOf, herror, if_neg Bool.false_ne_true]
  unfold Subscription.processType
  split_ifs with hinbox hcaches
  · have hok := hpoint hinbox
    have hkind : numberingOf m.msgType m.status = m.msgType.numbering := by
      rw [hnumbering]
      cases m.msgType.numbering with
      | checks pointToPoint => exact if_pos hok
      | _ => rfl
    rw [hkind]
    exact h.processPointToPointMessage hm hconflate hzero hok hinbox hahead
  · rw [h.caches] at hcaches; cases hcaches
  have hdata : m.msgType ∉ [.refresh, .delete, .expire, .notPermissioned, .notFound, .unknown] →
      Line.IsData m := fun hmem => ⟨herror, hmem⟩
  rw [hnumbering]
  unfold dispatch
  cases htype : m.msgType <;> rw [htype] at hinbox <;> try exact absurd rfl hinbox
  case refresh =>
    refine ⟨h, ?_, fun hd => absurd (htype ▸ hd.2) (by decide), rfl⟩
    unfold Line.Undisturbed
    simp
  case unknown => exact ⟨h, undisturbed_nil, fun hd => absurd (htype ▸ hd.2) (by decide), rfl⟩
  case delete | expire | notPermissioned | notFound =>
    exact h.invokeErrorCallback _ fun hd => nomatch htype ▸ hd.2
  all_goals
    have himage : m.msgType.isImage = false := by rw [htype]; rfl
    have hddict : m.msgType ≠ .ddictSnapshot := by rw [htype]; decide
    exact h.checkAndForward hm hconflate hzero himage hddict (hdata (by rw [htype]; decide)) hahead

/-- **One message for a settled subscription.** -/
theorem Settled.processMsg (hpoint : isInitialMessageOrRecap m.msgType → m.status = .ok)
    {behind : ℕ} (hahead : m.seqNum.toNat = n.toNat + behind) :
    x.Handles m sender n behind (x.processMsg m) (numberingOf m.msgType m.status) := by
  have herror : m.status.isError →
      numberingOf m.msgType m.status = .skips ∧ ¬ Line.IsData m := by
    intro herr
    refine ⟨?_, fun hd => Bool.false_ne_true (hd.1.symm.trans herr)⟩
    rw [numberingOf, herr, if_pos rfl]
  unfold Subscription.processMsg
  cases hstatus : m.status
  case notPermissioned | badSymbol | expired | notFound | timeout | noSubscribers |
      bandwidthExceeded =>
    obtain ⟨hskips, hdata⟩ := herror (by rw [hstatus]; rfl)
    exact h.invokeErrorCallback _ hdata
  case unknown =>
    obtain ⟨hskips, hdata⟩ := herror (by rw [hstatus]; rfl)
    obtain ⟨hsettled, hcalm⟩ := h.setPossiblyStale
    dsimp only
    refine ⟨hsettled, hcalm, fun hd => absurd hd hdata, ?_⟩
    unfold Subscription.setPossiblyStale
    split <;> rfl
  case possiblyStale =>
    dsimp only
    split_ifs with hmisc
    · -- whatever follows, the message is not the next one
      obtain ⟨hsettled, hcalm⟩ := h.setPossiblyStale
      have htype := hsettled.processType hm hconflate hzero (by rw [hstatus]; rfl) hpoint hahead
      have hrefuses : numberingOf m.msgType m.status = .refuses := by
        rw [hmisc, hstatus]; rfl
      rw [hrefuses] at htype
      rw [← hstatus, hrefuses]
      intro hmeets
      refine htype ⟨(Line.undisturbed_append.1 hmeets.1).2, fun hd => ?_⟩
      rcases List.mem_append.1 (hmeets.2 hd) with hmem | hmem
      · unfold Subscription.setPossiblyStale at hmem
        split at hmem <;> simp at hmem
      · exact hmem
    · rw [← hstatus]; exact h.processType hm hconflate hzero (by rw [hstatus]; rfl) hpoint hahead
  all_goals
    dsimp only
    rw [← hstatus]
    exact h.processType hm hconflate hzero (by rw [hstatus]; rfl) hpoint hahead

end

end

end

end

end Subscription

/-! ## A line -/

variable {pub : DQPublisher}

namespace DQPublisher

theorem send_eq (hzero : pub.mSeqNum ≠ 0) (m : Outgoing) : pub.send m =
      ({ pub with mSeqNum := if m.type.numbering.2 then pub.mSeqNum + 1 else pub.mSeqNum },
        m.toMsg (if m.type.numbering.2 then pub.mSeqNum + 1 else pub.mSeqNum) pub.mSenderId
          (if m.type.numbering.1 then pub.mStatus else m.status)) := by
  rw [send, if_pos hzero]
  dsimp only
  split <;> rfl

theorem publish_spec (hstatus : pub.mStatus = .ok) (hzero : pub.mSeqNum ≠ 0) (s : Sending)
    (hafter : (pub.after s).mSeqNum ≠ 0) :
    (pub.after s).mStatus = .ok ∧ (pub.after s).mSenderId = pub.mSenderId ∧
      (pub.after s).mSeqNum.toNat = pub.mSeqNum.toNat + (if s.numbering.1 then 1 else 0) ∧
      (pub.publish s).2.seqNum = (pub.after s).mSeqNum ∧
      (pub.publish s).2.senderId = pub.mSenderId ∧ (pub.publish s).2.conflateCount = none ∧
      (Subscription.isInitialMessageOrRecap (pub.publish s).2.msgType →
        (pub.publish s).2.status = .ok) ∧
      numberingOf (pub.publish s).2.msgType (pub.publish s).2.status = s.numbering.2 := by
  have hnext : pub.mSeqNum + 1 ≠ 0 → (pub.mSeqNum + 1).toNat = pub.mSeqNum.toNat + 1 := by
    intro hne
    have hbound := pub.mSeqNum.toNat_lt
    have hnat : (pub.mSeqNum + 1).toNat ≠ 0 := fun h0 => hne (UInt32.toNat_inj.1 h0)
    simp at hnat ⊢
    omega
  have hpoint : ∀ m : Outgoing, Subscription.isInitialMessageOrRecap m.type.msgType →
      m.type.numbering.1 := by
    rintro ⟨type, status, msgTotal, msgNum⟩ hp
    cases type with
    | syncRequest => cases hp
    | known type => cases type <;> first | rfl | cases hp
  have hreply : ∀ m : Outgoing, pub.sendReply m = m.toMsg pub.mSeqNum pub.mSenderId .ok := by
    intro m
    rw [sendReply, if_pos hzero, hstatus]
  cases s with
  | sendReply m | sendReplyWithHandle m =>
    unfold after publish
    dsimp only
    rw [hreply]
    exact ⟨hstatus, rfl, rfl, rfl, rfl, rfl, fun _ => rfl, rfl⟩
  | send m =>
    have hsend : pub.publish (.send m) = _ := send_eq hzero m
    have hnum : (if m.type.numbering.2 then pub.mSeqNum + 1 else pub.mSeqNum).toNat =
        pub.mSeqNum.toNat + (if m.type.numbering.2 then 1 else 0) := by
      unfold after at hafter
      rw [hsend] at hafter
      dsimp only at hafter
      split_ifs at hafter ⊢
      · exact hnext hafter
      · rfl
    rw [after, hsend]
    refine ⟨hstatus, rfl, hnum, rfl, rfl, rfl, fun ht => ?_, ?_⟩
    · show (if m.type.numbering.1 then pub.mStatus else m.status) = .ok
      rw [if_pos (hpoint m ht), hstatus]
    · show numberingOf m.type.msgType
        (if m.type.numbering.1 then pub.mStatus else m.status) = _
      rw [hstatus]
      rfl

end DQPublisher

namespace Line

open Subscription

/-- The subscription has its image, and is `behind` behind the publisher. -/
structure InStep (t : Transport) (l : Line) (behind : ℕ) : Prop where
  statusOk : l.pub.mStatus = .ok
  nonzero : l.pub.mSeqNum ≠ 0
  transport : l.sub.transport = t
  settled : ∃ n, l.sub.Settled l.pub.mSenderId n ∧ l.pub.mSeqNum.toNat = n.toNat + behind

variable {t : Transport} {l : Line} {behind : ℕ} {s : Sending}

theorem next_pub (l : Line) (s : Sending) : (l.next s).pub = l.pub.after s := rfl

theorem delivers_iff :
    l.Delivers s ↔ Meets (l.pub.publish s).2 (l.sub.processMsg (l.pub.publish s).2) :=
  Iff.rfl

theorem InStep.deliver (h : InStep t l behind) (hafter : (l.pub.after s).mSeqNum ≠ 0) :
    let ahead := if s.numbering.1 then behind + 1 else behind
    match s.numbering.2 with
    | .takesOver => l.Delivers s ∧ InStep t (l.next s) 0
    | .checks pointToPoint =>
      if ahead = 1 ∨ (ahead = 0 ∧ pointToPoint ∧ t.dqScheme = .ignoreDups) then
        l.Delivers s ∧ InStep t (l.next s) 0
      else ¬ l.Delivers s
    | .refuses => ¬ l.Delivers s
    | .skips => l.Delivers s ∧ InStep t (l.next s) ahead := by
  obtain ⟨n, hsettled, hbehind⟩ := h.settled
  obtain ⟨hstatus, hid, hnum, hseq, hsender, hconflate, hpoint, hkind⟩ :=
    DQPublisher.publish_spec h.statusOk h.nonzero s hafter
  have hahead : (l.pub.publish s).2.seqNum.toNat =
      n.toNat + (if s.numbering.1 then behind + 1 else behind) := by
    rw [hseq, hnum]
    split <;> omega
  generalize (if s.numbering.1 then behind + 1 else behind) = ahead at hahead ⊢
  have hhandles := hsettled.processMsg hsender hconflate (by rw [hseq]; exact hafter) hpoint hahead
  rw [hkind] at hhandles
  -- what is left after a message that is taken in
  have htakes : ∀ k : UInt32, l.sub.Takes (l.pub.publish s).2 l.pub.mSenderId k
      (l.sub.processMsg (l.pub.publish s).2) → ∀ left : ℕ,
        (l.pub.publish s).2.seqNum.toNat = k.toNat + left →
          l.Delivers s ∧ InStep t (l.next s) left := by
    intro k htake left hleft
    refine ⟨delivers_iff.2 htake.meets, hstatus, hafter, htake.transport.trans h.transport, k, ?_,
      ?_⟩
    · rw [next_pub, hid]; exact htake.settled
    · rwa [next_pub, ← hseq]
  cases hnumbering : s.numbering.2 with
  | takesOver => rw [hnumbering] at hhandles; exact htakes _ hhandles 0 rfl
  | checks pointToPoint =>
    rw [hnumbering] at hhandles
    unfold Handles at hhandles
    dsimp only at hhandles ⊢
    rw [h.transport] at hhandles
    split_ifs at hhandles ⊢ with hright
    · exact htakes _ hhandles 0 rfl
    · exact fun hdelivers => hhandles (delivers_iff.1 hdelivers)
  | refuses =>
    rw [hnumbering] at hhandles; exact fun hdelivers => hhandles (delivers_iff.1 hdelivers)
  | skips => rw [hnumbering] at hhandles; exact htakes _ hhandles _ hahead

theorem inStep_initial (t : Transport) (cacheSize : Nat) (acceptMultipleInitials : Bool)
    (hstatus : pub.mStatus = .ok) (hzero : pub.mSeqNum ≠ 0) (hafter : (pub.after s).mSeqNum ≠ 0)
    (hs : s.message.IsInitialImage) : s.numbering.2 = .takesOver ∧
      Delivers ⟨pub, .new t cacheSize acceptMultipleInitials⟩ s ∧
      InStep t (next ⟨pub, .new t cacheSize acceptMultipleInitials⟩ s) 0 := by
  obtain ⟨hkept, hid, -, hseq, hsender, -, hpoint, hkind⟩ :=
    DQPublisher.publish_spec hstatus hzero s hafter
  have hmsg : ((pub.publish s).2.msgType = .initial ∨ (pub.publish s).2.msgType = .bookInitial) ∧
      ((pub.publish s).2.msgTotal = 0 ∨ (pub.publish s).2.msgNum = (pub.publish s).2.msgTotal) := by
    have hof : (pub.publish s).2.msgType = s.message.type.msgType ∧
        (pub.publish s).2.msgTotal = s.message.msgTotal ∧
        (pub.publish s).2.msgNum = s.message.msgNum := by
      cases s with
      | send m =>
        have hsend : pub.publish (.send m) = _ := DQPublisher.send_eq hzero m
        rw [hsend]
        exact ⟨rfl, rfl, rfl⟩
      | sendReply m | sendReplyWithHandle m =>
        unfold DQPublisher.publish DQPublisher.sendReply
        dsimp only
        rw [if_pos hzero]
        exact ⟨rfl, rfl, rfl⟩
    rw [hof.1, hof.2.1, hof.2.2]
    exact ⟨hs.1.imp (fun h => by rw [h]; rfl) fun h => by rw [h]; rfl, hs.2⟩
  have hok : (pub.publish s).2.status = .ok := by
    refine hpoint ?_
    rcases hmsg.1 with h | h <;> rw [h] <;> rfl
  obtain ⟨y, hrecover, harrived, htransport, hdq, hprocess⟩ :=
    processMsg_initial (x := .new t cacheSize acceptMultipleInitials) rfl rfl rfl rfl
      ⟨hmsg.1, hmsg.2, hok⟩
  have hclear : (imaged (Context.initializeContext cacheSize) (pub.publish s).2).clearCache =
      imaged (Context.initializeContext cacheSize) (pub.publish s).2 := by
    refine Context.clearCache_eq_self.2 (.inr ⟨?_, rfl⟩)
    show List.replicate cacheSize none = List.replicate (List.replicate cacheSize none).length none
    rw [length_replicate]
  have hsettled : y.Settled pub.mSenderId (pub.publish s).2.seqNum := by
    refine ⟨hrecover, harrived, ?_, ?_, ?_, ?_, ?_⟩ <;> rw [hdq]
    · exact .inl rfl
    · rfl
    · exact hsender
    · exact hclear
    · rfl
  have happlied : (imaged (Subscription.new t cacheSize acceptMultipleInitials).dq.ctx
      (pub.publish s).2).applyPreInitialCache =
        (imaged (Subscription.new t cacheSize acceptMultipleInitials).dq.ctx
          (pub.publish s).2, []) := by
    have hnone := hsettled.applyPreInitialCache
    rwa [hdq] at hnone
  have hresult : Subscription.processMsg (.new t cacheSize acceptMultipleInitials)
      (pub.publish s).2 = (y, [.unsetAllPossiblyStale, .forward (pub.publish s).2]) := by
    rw [hprocess]
    split_ifs
    · rw [happlied]
      dsimp only
      refine Prod.ext ?_ rfl
      rw [show (Subscription.new t cacheSize acceptMultipleInitials).dq.ctx =
        Context.initializeContext cacheSize from rfl, hclear]
      exact congrArg (fun d => { y with dq := d }) hdq.symm
    · rfl
  refine ⟨?_, ?_, ?_⟩
  · rw [← hkind, hok]
    rcases hmsg.1 with h | h <;> rw [h] <;> rfl
  · refine delivers_iff.2 ?_
    rw [hresult]
    refine ⟨?_, fun _ => mem_cons_of_mem _ (mem_singleton_self _)⟩
    unfold Undisturbed
    simp
  · have hsub : (next ⟨pub, .new t cacheSize acceptMultipleInitials⟩ s).sub = y :=
      congrArg Prod.fst hresult
    refine ⟨hkept, hafter, ?_, (pub.publish s).2.seqNum, ?_, ?_⟩
    · rw [hsub, htransport]; rfl
    · rwa [hsub, next_pub, hid]
    · rw [hseq]; rfl

/-! ## A run -/

variable {ss : List Sending}

theorem deliversAll_cons : l.DeliversAll (s :: ss) ↔ l.Delivers s ∧ (l.next s).DeliversAll ss := by
  constructor
  · intro h; exact ⟨h [] s ss rfl, fun pre s' suf hss => h (s :: pre) s' suf (by rw [hss]; rfl)⟩
  rintro ⟨hs, hrest⟩ pre s' suf hss
  cases pre with
  | nil =>
    obtain ⟨rfl, -⟩ := List.cons.inj hss
    exact hs
  | cons a pre =>
    obtain ⟨rfl, hss'⟩ := List.cons.inj hss
    exact hrest pre s' suf hss'

theorem InStep.deliversAll_iff (h : InStep t l behind)
    (hnowrap : ∀ pre, pre <+: ss → (pre.foldl DQPublisher.after l.pub).mSeqNum ≠ 0) :
    l.DeliversAll ss ↔ Agrees t behind ss := by
  induction ss generalizing l behind with
  | nil =>
    refine iff_of_true (fun pre s suf hss => ?_) trivial
    exact absurd hss.symm (append_ne_nil_of_right_ne_nil _ (cons_ne_nil _ _))
  | cons s ss ih =>
    have hrest : ∀ pre, pre <+: ss →
        (pre.foldl DQPublisher.after (l.next s).pub).mSeqNum ≠ 0 :=
      fun pre hpre => hnowrap (s :: pre) ((prefix_cons_inj s).2 hpre)
    have hstep := h.deliver (hnowrap [s] ((prefix_cons_inj s).2 nil_prefix))
    rw [deliversAll_cons]
    unfold Agrees
    generalize (if s.numbering.1 then behind + 1 else behind) = ahead at hstep ⊢
    cases hnumbering : s.numbering.2 with
    | takesOver =>
      rw [hnumbering] at hstep
      rw [ih hstep.2 hrest]
      exact and_iff_right hstep.1
    | checks pointToPoint =>
      rw [hnumbering] at hstep
      dsimp only at hstep
      split_ifs at hstep with hright
      · rw [ih hstep.2 hrest]; exact (and_iff_right hstep.1).trans (and_iff_right hright).symm
      · exact iff_of_false (fun hall => hstep hall.1) fun hagrees => hright hagrees.1
    | refuses => rw [hnumbering] at hstep; exact iff_of_false (fun hall => hstep hall.1) id
    | skips =>
      rw [hnumbering] at hstep
      rw [ih hstep.2 hrest]
      exact and_iff_right hstep.1

/-- **The numbering of a publisher and of its subscriber.**  After an initial image the subscription
is undisturbed and gets all data just if every number that is checked is the next one. -/
theorem agrees_iff (t : Transport) (cacheSize : Nat) (acceptMultipleInitials : Bool)
    {pub : DQPublisher} {first : Sending} {ss : List Sending} (hstatus : pub.mStatus = .ok)
    (hnowrap : ∀ pre, pre <+: first :: ss → (pre.foldl DQPublisher.after pub).mSeqNum ≠ 0)
    (hfirst : first.message.IsInitialImage) :
    DeliversAll ⟨pub, .new t cacheSize acceptMultipleInitials⟩ (first :: ss) ↔
      Agrees t 0 (first :: ss) := by
  obtain ⟨htakes, hdelivers, hinstep⟩ := inStep_initial t cacheSize acceptMultipleInitials hstatus
    (hnowrap [] nil_prefix) (hnowrap [first] ((prefix_cons_inj first).2 nil_prefix))
    hfirst
  have hrest : ∀ pre, pre <+: ss → (pre.foldl DQPublisher.after
      (next ⟨pub, .new t cacheSize acceptMultipleInitials⟩ first).pub).mSeqNum ≠ 0 :=
    fun pre hpre => hnowrap (first :: pre) ((prefix_cons_inj first).2 hpre)
  rw [deliversAll_cons, hinstep.deliversAll_iff hrest, and_iff_right hdelivers, Agrees, htakes]

def ofType (type : MsgType) : Outgoing := ⟨.known type, .ok, 0, 0⟩

def fresh : DQPublisher := ⟨.ok, 1, 1⟩

/-- An image, two updates, an image for a late subscriber and another update. -/
theorem delivers_updates :
    DeliversAll ⟨fresh, .new Strategy.usual 4 false⟩
      [.sendReply (ofType .initial), .send (ofType .update), .send (ofType .quote),
        .sendReply (ofType .recap), .send (ofType .update)] := by
  refine (agrees_iff Strategy.usual 4 false rfl ?_ ⟨.inl rfl, .inl rfl⟩).2 ?_
  · intro pre hpre
    rw [← mem_inits] at hpre
    revert pre
    decide
  · exact ⟨.inl rfl, .inl rfl, .inl rfl, trivial⟩

/-- A message is deleted, and the next update is a gap; a miscellaneous one is a duplicate. -/
theorem disturbed_delete_misc :
    (∀ pre, pre <+: [.sendReply (ofType .initial), .send (ofType .delete), .send (ofType .update)] →
      (pre.foldl DQPublisher.after fresh).mSeqNum ≠ 0) ∧
    (∀ pre, pre <+: [.sendReply (ofType .initial), .send (ofType .misc)] →
      (pre.foldl DQPublisher.after fresh).mSeqNum ≠ 0) ∧
    ¬ DeliversAll ⟨fresh, .new Strategy.usual 4 false⟩
      [.sendReply (ofType .initial), .send (ofType .delete), .send (ofType .update)] ∧
    ¬ DeliversAll ⟨fresh, .new Strategy.usual 4 false⟩
      [.sendReply (ofType .initial), .send (ofType .misc)] := by
  refine ⟨fun pre hpre => ?_, fun pre hpre => ?_, fun hall => ?_, fun hall => ?_⟩
  · rw [← mem_inits] at hpre
    revert pre
    decide
  · rw [← mem_inits] at hpre
    revert pre
    decide
  · have hgap := (hall [.sendReply (ofType .initial), .send (ofType .delete)]
      (.send (ofType .update)) [] rfl).1.1
    revert hgap
    decide +kernel
  · have hduplicate := (hall [.sendReply (ofType .initial)] (.send (ofType .misc)) [] rfl).1.2.2.1
    revert hduplicate
    decide +kernel

end Line

end Dq

end Mama
