import OpenMama.Mama.DqStates
import OpenMama.Mama.ListenerMsgCallback

/-!
# What a message finds in `mTryToFillGap`

`mTryToFillGap` is kept in the strategy of a subscription, not in the context of a symbol.  A
message that is checked sets it, looks at it and clears it, or leaves it alone (`Touches`).  It
tells two values of it apart only where it looks at it with something in the ring, or with a mark
left on the ring (`Looks`); otherwise the check does the same with either
(`Strategy.check_withFlag`).
-/

namespace Mama

namespace Dq

/-! ## The messages that look at the flag -/

def Misses (t : Transport) (c : Context) (m : Msg) : Prop :=
  t.preInitialScheme = .onGap ∧ ¬ IsNext c m ∧ ¬ IsIgnored t c m ∧ m.seqNum ≠ c.seqNum ∧
    c.dqState ≠ .waitingForRecapAfterFt

instance (t : Transport) (c : Context) (m : Msg) : Decidable (Misses t c m) :=
  inferInstanceAs (Decidable (_ ∧ _))

def Context.Updates (t : Transport) (c : Context) (m : Msg) : Prop :=
  ¬ (c.takenOver m ∧ t.ftScheme ≠ .waitForRecap) ∧ m.msgType.isImage = false ∧
    m.msgType ≠ .ddictSnapshot

instance (t : Transport) (c : Context) (m : Msg) : Decidable (c.Updates t m) :=
  inferInstanceAs (Decidable (_ ∧ _))

/-- The switch takes the message for an image that sets the flag. -/
def Context.Sets (t : Transport) (c : Context) (m : Msg) : Prop :=
  ¬ (c.takenOver m ∧ t.ftScheme ≠ .waitForRecap) ∧ m.msgType.isImage ∧
    (t.preRecapCacheEnabled ∨ m.msgType = .initial ∨ m.msgType = .bookInitial)

instance (t : Transport) (c : Context) (m : Msg) : Decidable (c.Sets t m) :=
  inferInstanceAs (Decidable (_ ∧ _))

/-- The message sets the flag, or looks at it and clears it. -/
def Touches (t : Transport) (c : Context) (m : Msg) : Prop :=
  c.Sets t m ∨ (c.Updates t m ∧ (IsNext c m ∨ Misses t c m))

instance (t : Transport) (c : Context) (m : Msg) : Decidable (Touches t c m) :=
  inferInstanceAs (Decidable (_ ∨ _))

/-- The message looks at the flag, and what it does depends on it. -/
def Looks (t : Transport) (c : Context) (m : Msg) : Prop :=
  c.Updates t m ∧ ((IsNext c m ∧ c.clearCache ≠ c) ∨
    (Misses t c m ∧ (c.clearCache ≠ c ∨ c.setCacheMsgStale)))

instance (t : Transport) (c : Context) (m : Msg) : Decidable (Looks t c m) :=
  inferInstanceAs (Decidable (_ ∧ _))

/-! ## A ring that holds nothing -/

namespace Context

variable {c : Context}

theorem clearCache_eq_self : c.clearCache = c ↔
      c.cache = [] ∨ (c.cache = List.replicate c.cache.length none ∧ c.curCacheIdx = 0) := by
  unfold clearCache
  by_cases hcache : c.cache = []
  · simp [hcache]
  · rw [if_neg hcache, or_iff_right hcache]
    constructor
    · intro h; exact ⟨(congrArg Context.cache h).symm, (congrArg Context.curCacheIdx h).symm⟩
    · rintro ⟨hring, hidx⟩
      rw [← hring, ← hidx]

theorem slot_of_clear (hclear : c.clearCache = c) (i : Nat) : c.slot i = none := by
  unfold slot
  rcases clearCache_eq_self.1 hclear with hcache | ⟨hring, -⟩
  · rw [hcache]; rfl
  · rw [hring, List.getD_eq_getElem?_getD, List.getElem?_replicate]
    split <;> rfl

theorem fillGap_of_clear (hclear : c.clearCache = c) (hmark : c.setCacheMsgStale = false)
    (last : UInt32) : c.fillGap last = (false, c, []) := by
  have hloop : ∀ turns next cur, c.fillLoop last turns next cur = (false, []) := by
    intro turns next cur
    cases turns with
    | zero => rfl
    | succ turns => rw [fillLoop, slot_of_clear hclear]
  have hself : { c with setCacheMsgStale := false } = c := by rw [← hmark]
  unfold fillGap
  split
  · rw [hself]
  · simp only [hloop, Bool.and_false]
    rw [hself]

end Context

namespace Step

/-! ## Steps with another flag -/

def withFlag (x : Step) (f : Bool) : Step := { x with tryToFillGap := f }

variable (t : Transport) (old : Context) (x : Step) (f : Bool)

@[simp] theorem withFlag_ctx : (x.withFlag f).ctx = x.ctx := rfl

@[simp] theorem withFlag_msg : (x.withFlag f).msg = x.msg := rfl

@[simp] theorem withFlag_self : x.withFlag x.tryToFillGap = x := rfl

@[simp] theorem emit_withFlag (a : Act) : (x.withFlag f).emit a = (x.emit a).withFlag f := rfl

@[simp] theorem resetDqState_withFlag :
    (x.withFlag f).resetDqState = x.resetDqState.withFlag f := by
  unfold resetDqState
  rw [withFlag_ctx]
  split <;> rfl

theorem handleStaleData_withFlag :
    (x.withFlag f).handleStaleData = x.handleStaleData.withFlag f := by
  unfold handleStaleData
  dsimp only [withFlag_ctx]
  cases x.ctx.dqState <;> rfl

theorem handleFTTakeover_withFlag (b : Bool) :
    (x.withFlag f).handleFTTakeover b = (x.handleFTTakeover b).withFlag f := by
  cases b with
  | true => rfl
  | false => rw [handleFTTakeover, resetDqState_withFlag]; rfl

/-! ## The parts of an update -/

variable {x}

theorem missedSeqNum_withFlag_unread (ht : t.preInitialScheme ≠ .onGap) :
    missedSeqNum t (x.withFlag f) = (missedSeqNum t x).withFlag f := by
  unfold missedSeqNum
  rw [if_neg fun h => ht h.1, if_neg fun h => ht h.1, emit_withFlag, handleStaleData_withFlag]

theorem missedSeqNum_withFlag (ht : t.preInitialScheme = .onGap)
    (h : f = x.tryToFillGap ∨ (x.ctx.clearCache = x.ctx ∧ x.ctx.setCacheMsgStale = false)) :
    missedSeqNum t (x.withFlag f) = missedSeqNum t x := by
  rcases h with rfl | ⟨hclear, hmark⟩
  · rw [withFlag_self]
  have hsame : ∀ y : Step, y.ctx = x.ctx → y.msg = x.msg → y.acts = x.acts →
      missedSeqNum t y = (({ x with tryToFillGap := false }.emit .onGap).handleStaleData) := by
    intro y hctx hmsg hacts
    obtain ⟨ctx, flag, msg, acts⟩ := y
    obtain rfl : ctx = x.ctx := hctx
    obtain rfl : msg = x.msg := hmsg
    obtain rfl : acts = x.acts := hacts
    rw [missedSeqNum, Context.fillGap_of_clear hclear hmark, ht]
    cases flag with
    | true => simp [hclear]
    | false => simp
  exact (hsame (x.withFlag f) rfl rfl rfl).trans (hsame x rfl rfl rfl).symm

theorem checkDuplicate_missed (h : Misses t old x.msg) :
    checkDuplicate t old x = missedSeqNum t x := by
  obtain ⟨-, -, hcounted, hnew, hbefore⟩ := h
  unfold checkDuplicate
  rw [if_neg fun hi => hcounted ⟨hi.1, hi.2.1⟩, if_neg fun hd => hnew hd.1, if_neg hbefore]

theorem checkDuplicate_unread (hlate : ¬ IsNext old x.msg) (h : ¬ Misses t old x.msg) {y : Step}
    (hmsg : y.msg = x.msg) (hy : y = x.withFlag f) :
    checkDuplicate t old y = (checkDuplicate t old x).withFlag f := by
  have hstate := ne_or_ne old.dqState
  unfold checkDuplicate
  rw [hmsg]
  split_ifs with hignored hsame hheld
  · rw [hy]; rfl
  · rw [hy]; rfl
  · rw [hy]; rfl
  · rw [hy]
    refine missedSeqNum_withFlag_unread t f fun ht => h ⟨ht, hlate, ?_, ?_, hheld⟩
    · exact fun hi => hignored ⟨hi.1, hi.2, hstate⟩
    · exact fun hseq => hsame ⟨hseq, hheld⟩

theorem checkUpdate_next (hn : IsNext old x.msg) (hclear : x.ctx.clearCache = x.ctx) :
    checkUpdate t old x = checkUpdate t old (x.withFlag false) := by
  have hcond : (old.dqState = .notEstablished ∨ x.msg.seqNum = 0 ∨
      x.msg.seqNum = old.seqNum + x.msg.conflateCnt) ∧
      (old.dqState ≠ .waitingForRecap ∨ old.dqState ≠ .waitingForRecapAfterFt) :=
    ⟨hn, ne_or_ne old.dqState⟩
  have hcleared : (if x.tryToFillGap then { x.setCtx Context.clearCache with tryToFillGap := false }
      else x) = x.withFlag false := by
    obtain ⟨ctx, flag, msg, acts⟩ := x
    have hctx : ctx.clearCache = ctx := hclear
    cases flag with
    | true => simp [setCtx, withFlag, hctx]
    | false => rfl
  have hflagged : (if (x.withFlag false).tryToFillGap then
      { (x.withFlag false).setCtx Context.clearCache with tryToFillGap := false }
      else x.withFlag false) = x.withFlag false := rfl
  have hcond' : (old.dqState = .notEstablished ∨ (x.withFlag false).msg.seqNum = 0 ∨
      (x.withFlag false).msg.seqNum = old.seqNum + (x.withFlag false).msg.conflateCnt) ∧
      (old.dqState ≠ .waitingForRecap ∨ old.dqState ≠ .waitingForRecapAfterFt) := hcond
  unfold checkUpdate
  rw [if_pos hcond, if_pos hcond', hcleared, hflagged]

theorem checkUpdate_late (hn : ¬ IsNext old x.msg) :
    checkUpdate t old x = checkDuplicate t old x := by
  rw [checkUpdate, if_neg fun h => hn h.1]

theorem checkUpdate_withFlag
    (hnext : IsNext old x.msg → f = x.tryToFillGap ∨ x.ctx.clearCache = x.ctx)
    (hmiss : Misses t old x.msg →
      f = x.tryToFillGap ∨ (x.ctx.clearCache = x.ctx ∧ x.ctx.setCacheMsgStale = false)) :
    checkUpdate t old (x.withFlag f) = (checkUpdate t old x).withFlag
      (if IsNext old x.msg ∨ Misses t old x.msg then (checkUpdate t old x).tryToFillGap
        else f) := by
  by_cases hn : IsNext old x.msg
  · rw [if_pos (.inl hn), withFlag_self]
    rcases hnext hn with rfl | hclear
    · rw [withFlag_self]
    · have hn' : IsNext old (x.withFlag f).msg := hn
      rw [checkUpdate_next t old hn hclear, checkUpdate_next t old hn' hclear]
      rfl
  have hn' : ¬ IsNext old (x.withFlag f).msg := hn
  rw [checkUpdate_late t old hn, checkUpdate_late t old hn']
  by_cases hm : Misses t old x.msg
  · have hm' : Misses t old (x.withFlag f).msg := hm
    rw [if_pos (.inr hm), withFlag_self, checkDuplicate_missed t old hm,
      checkDuplicate_missed t old hm', missedSeqNum_withFlag t f hm.1 (hmiss hm)]
  · rw [if_neg (not_or.2 ⟨hn, hm⟩)]; exact checkDuplicate_unread t old f hn hm rfl rfl

/-! ## The switch -/

theorem checkRecap_withFlag :
    checkRecap t (x.withFlag f) = (checkRecap t x).withFlag
      (if t.preRecapCacheEnabled then (checkRecap t x).tryToFillGap else f) := by
  unfold checkRecap
  cases t.preRecapCacheEnabled with
  | true => rfl
  | false =>
    rw [if_neg Bool.false_ne_true]
    dsimp only
    rw [emit_withFlag, resetDqState_withFlag]
    rfl

theorem checkType_image_withFlag (himage : x.msg.msgType.isImage) :
    checkType t old (x.withFlag f) = (checkType t old x).withFlag
      (if t.preRecapCacheEnabled ∨ x.msg.msgType = .initial ∨ x.msg.msgType = .bookInitial
        then (checkType t old x).tryToFillGap else f) := by
  have hinitial : checkInitial t (x.withFlag f) = checkInitial t x := rfl
  unfold checkType
  dsimp only [withFlag_msg]
  cases htype : x.msg.msgType <;> rw [htype] at himage <;> try cases himage
  case initial | bookInitial => simp [hinitial]
  case recap | bookRecap => simp [checkRecap_withFlag]

end Step

namespace Strategy

/-- **The check of a message, with another flag.**  It does the same, unless the message looks at
the flag. -/
theorem check_withFlag (t : Transport) (x : Strategy) (m : Msg) (f : Bool)
    (h : Looks t x.ctx m → f = x.tryToFillGap) :
    check t ⟨x.ctx, f⟩ m = (check t x m).withFlag
      (if Touches t x.ctx m then (check t x m).tryToFillGap else f) := by
  have henter : enter ⟨x.ctx, f⟩ m = (x.enter m).withFlag f := rfl
  have hmsg : (x.enter m).msg = m := rfl
  rw [check_eq, check_eq]
  by_cases htake : x.ctx.takenOver m ∧ t.ftScheme ≠ .waitForRecap
  · have htouch : ¬ Touches t x.ctx m := by
      rintro (⟨hn, -⟩ | ⟨⟨hn, -⟩, -⟩) <;> exact hn htake
    rw [if_pos htake, if_pos htake, if_neg htouch]
    exact Step.handleFTTakeover_withFlag
      ⟨{ x.ctx with doNotForward := false }, x.tryToFillGap, m, []⟩ f false
  rw [if_neg htake, if_neg htake, henter]
  cases himage : m.msgType.isImage with
  | true =>
    have htouch : Touches t x.ctx m ↔ t.preRecapCacheEnabled ∨ m.msgType = .initial ∨
        m.msgType = .bookInitial := by
      unfold Touches Context.Sets Context.Updates
      simp [htake, himage]
    rw [Step.checkType_image_withFlag t x.ctx f (x := x.enter m) himage]
    simp [htouch, hmsg]
  | false =>
    by_cases hddict : m.msgType = .ddictSnapshot
    · have htouch : ¬ Touches t x.ctx m := by
        rintro (⟨-, hi, -⟩ | ⟨⟨-, -, hn⟩, -⟩)
        · rw [himage] at hi; cases hi
        · exact hn hddict
      have hkept : ∀ y : Step, y.msg.msgType = .ddictSnapshot → y.checkType t x.ctx = y := by
        intro y hy
        rw [Step.checkType, hy]
      rw [if_neg htouch, hkept _ hddict, hkept _ hddict]
    have hupdates : x.ctx.Updates t m := ⟨htake, himage, hddict⟩
    have htouch : Touches t x.ctx m ↔ IsNext x.ctx m ∨ Misses t x.ctx m := by
      unfold Touches Context.Sets; simp [himage, hupdates]
    have hring : (x.enter m).ctx.clearCache = (x.enter m).ctx ↔ x.ctx.clearCache = x.ctx := by
      have hcache : (x.enter m).ctx.cache = x.ctx.cache ∧
          (x.enter m).ctx.curCacheIdx = x.ctx.curCacheIdx := by
        unfold enter Context.entered
        split <;> exact ⟨rfl, rfl⟩
      rw [Context.clearCache_eq_self, Context.clearCache_eq_self, hcache.1, hcache.2]
    have hmark : (x.enter m).ctx.setCacheMsgStale = x.ctx.setCacheMsgStale := by
      unfold enter Context.entered
      split <;> rfl
    rw [checkType_update himage hddict, checkType_update himage hddict,
      Step.checkUpdate_withFlag t x.ctx f]
    · simp [htouch, hmsg]
    · intro hnext
      by_cases hclear : x.ctx.clearCache = x.ctx
      · exact .inr (hring.2 hclear)
      · exact .inl (h ⟨hupdates, .inl ⟨hnext, hclear⟩⟩)
    intro hmiss
    by_cases hempty : x.ctx.clearCache = x.ctx ∧ x.ctx.setCacheMsgStale = false
    · exact .inr ⟨hring.2 hempty.1, hmark.trans hempty.2⟩
    · refine .inl (h ⟨hupdates, .inr ⟨hmiss, ?_⟩⟩)
      by_cases hclear : x.ctx.clearCache = x.ctx
      · exact .inr (Bool.not_eq_false _ ▸ fun hm => hempty ⟨hclear, hm⟩)
      · exact .inl hclear

end Strategy

/-! ## A subscription with another flag -/

namespace Subscription

def withFlag (x : Subscription) (f : Bool) : Subscription := { x with dq := ⟨x.dq.ctx, f⟩ }

/-- The flag after a message, if it was `f` before it: `x` is what the message leaves. -/
def flagAfter (x y : Subscription) (m : Msg) (f : Bool) : Bool :=
  if Touches x.transport x.dq.ctx m then y.dq.tryToFillGap else f

variable {x : Subscription} {m : Msg} {f : Bool}

theorem checkSeqNum_withFlag (hrecover : x.recoverGaps)
    (h : Looks x.transport x.dq.ctx m → f = x.dq.tryToFillGap) :
    (x.withFlag f).checkSeqNum m =
      ((x.checkSeqNum m).1.withFlag (x.flagAfter (x.checkSeqNum m).1 m f),
        (x.checkSeqNum m).2) := by
  have hcheck := Strategy.check_withFlag x.transport x.dq m f h
  have hrecover' : (x.withFlag f).recoverGaps := hrecover
  unfold checkSeqNum
  rw [if_pos hrecover, if_pos hrecover']
  show ({ x with dq := ⟨(Strategy.check x.transport ⟨x.dq.ctx, f⟩ m).ctx,
      (Strategy.check x.transport ⟨x.dq.ctx, f⟩ m).tryToFillGap⟩ },
    (Strategy.check x.transport ⟨x.dq.ctx, f⟩ m).msg,
    (Strategy.check x.transport ⟨x.dq.ctx, f⟩ m).acts) = _
  rw [hcheck]
  rfl

theorem checkAndForward_withFlag (hrecover : x.recoverGaps)
    (h : Looks x.transport x.dq.ctx m → f = x.dq.tryToFillGap) :
    (x.withFlag f).checkAndForward m = ((x.checkAndForward m).1.withFlag
      (x.flagAfter (x.checkAndForward m).1 m f), (x.checkAndForward m).2) := by
  rw [checkAndForward, checkSeqNum_withFlag hrecover h]
  rfl

def counted (x : Subscription) (m : Msg) : Subscription :=
  if m.msgTotal = 0 ∨ m.msgNum = m.msgTotal then
    { x with imageCount := x.imageCount + 1, initialArrived := true }
  else x

def afterCheck (r : Result) (m : Msg) : Subscription × List Act :=
  if appliesCache r.1.transport m.msgType then
    ({ r.1 with dq := { r.1.dq with ctx := r.1.dq.ctx.applyPreInitialCache.1.clearCache } },
      r.2.2 ++ [.forward r.2.1] ++ r.1.dq.ctx.applyPreInitialCache.2)
  else (r.1, r.2.2 ++ [.forward r.2.1])

theorem processPointToPointMessage_eq (hmany : x.acceptMultipleInitials) :
    x.processPointToPointMessage m = afterCheck ((x.counted m).checkSeqNum m) m := by
  have hkept : ((x.counted m).checkSeqNum m).1.acceptMultipleInitials := by
    unfold checkSeqNum counted
    split_ifs <;> exact hmany
  have hpart : (if m.msgTotal = 0 ∨ m.msgNum = m.msgTotal then
      (if x.acceptMultipleInitials then { x with imageCount := x.imageCount + 1,
                                                 initialArrived := true }
        else ({ x with imageCount := x.imageCount + 1, initialArrived := true } :
          Subscription).stopWaitForResponse)
      else x) = x.counted m := by
    rw [if_pos hmany]
    rfl
  unfold processPointToPointMessage afterCheck
  dsimp only
  rw [hpart, hkept]
  simp

theorem processPointToPointMessage_withFlag (hrecover : x.recoverGaps)
    (hmany : x.acceptMultipleInitials)
    (h : Looks x.transport x.dq.ctx m → f = x.dq.tryToFillGap) :
    (x.withFlag f).processPointToPointMessage m = ((x.processPointToPointMessage m).1.withFlag
      (x.flagAfter (x.processPointToPointMessage m).1 m f),
        (x.processPointToPointMessage m).2) := by
  have hcounted : (x.withFlag f).counted m = (x.counted m).withFlag f := by
    unfold counted
    split <;> rfl
  have hsame : (x.counted m).dq = x.dq ∧ (x.counted m).transport = x.transport ∧
      (x.counted m).recoverGaps = x.recoverGaps := by
    unfold counted
    split <;> exact ⟨rfl, rfl, rfl⟩
  have hcheck : ((x.counted m).withFlag f).checkSeqNum m =
      (((x.counted m).checkSeqNum m).1.withFlag
        ((x.counted m).flagAfter ((x.counted m).checkSeqNum m).1 m f),
        ((x.counted m).checkSeqNum m).2) := by
    refine checkSeqNum_withFlag (hsame.2.2.trans hrecover) ?_
    rwa [hsame.1, hsame.2.1]
  have hflag : ∀ r : Result, (afterCheck r m).1.dq.tryToFillGap = r.1.dq.tryToFillGap := by
    intro r
    unfold afterCheck
    split <;> rfl
  have hafter : ∀ (r : Result) (f' : Bool), afterCheck (r.1.withFlag f', r.2) m =
      ((afterCheck r m).1.withFlag f', (afterCheck r m).2) := by
    intro r f'
    have htransport : (r.1.withFlag f').transport = r.1.transport := rfl
    unfold afterCheck
    rw [htransport]
    split <;> rfl
  rw [processPointToPointMessage_eq (x := x.withFlag f) hmany, processPointToPointMessage_eq hmany,
    hcounted, hcheck, hafter]
  unfold flagAfter
  rw [hflag, hsame.1, hsame.2.1]

theorem checkSeqNum_imageCount (x : Subscription) (m : Msg) :
    (x.checkSeqNum m).1.imageCount = x.imageCount := by
  unfold checkSeqNum
  split <;> rfl

theorem checkAndForward_imageCount (x : Subscription) (m : Msg) :
    (x.checkAndForward m).1.imageCount = x.imageCount := checkSeqNum_imageCount x m

theorem processPointToPointMessage_imageCount (hmany : x.acceptMultipleInitials) :
    (x.processPointToPointMessage m).1.imageCount =
      if m.msgTotal = 0 ∨ m.msgNum = m.msgTotal then x.imageCount + 1 else x.imageCount := by
  have hafter : ∀ r : Result, (afterCheck r m).1.imageCount = r.1.imageCount := by
    intro r
    unfold afterCheck
    split <;> rfl
  rw [processPointToPointMessage_eq hmany, hafter, checkSeqNum_imageCount]
  unfold counted
  split <;> rfl

end Subscription

end Dq

end Mama
