import OpenMama.Lib.Until
import OpenMama.Mama.DqStrategy

/-!
# The states of a stream

What an update does to a context, in six cases (`Verdict`,
`Step.checkUpdate_verdict`), and from it when a stream that waits for a recap goes on
waiting until one arrives (`Strategy.waits_iff`).

The test that should keep the two waiting states from accepting an update compares
one state with two others and holds of every state, so an update with the next
number, or with number zero, ends a wait.
-/

namespace Mama

open List

namespace Dq

/-! ## One update -/

def IsNext (old : Context) (m : Msg) : Prop :=
  old.dqState = .notEstablished ∨ m.seqNum = 0 ∨ m.seqNum = old.seqNum + m.conflateCnt

instance (old : Context) (m : Msg) : Decidable (IsNext old m) :=
  inferInstanceAs (Decidable (_ ∨ _ ∨ _))

theorem ne_or_ne (s : State) : s ≠ .waitingForRecap ∨ s ≠ .waitingForRecapAfterFt := by
  cases s <;> simp

def IsIgnored (t : Transport) (old : Context) (m : Msg) : Prop :=
  t.dqScheme = .ignoreDups ∧ m.seqNum ≤ old.seqNum

instance (t : Transport) (old : Context) (m : Msg) : Decidable (IsIgnored t old m) :=
  inferInstanceAs (Decidable (_ ∧ _))

def IsFilled (t : Transport) (x : Step) : Prop :=
  t.preInitialScheme = .onGap ∧ x.tryToFillGap ∧ (x.ctx.fillGap x.msg.seqNum).1

instance (t : Transport) (x : Step) : Decidable (IsFilled t x) :=
  inferInstanceAs (Decidable (_ ∧ _ ∧ _))

/-- What an update does, `old` being the context before a takeover. -/
inductive Verdict (t : Transport) (old : Context) (x y : Step) : Prop
  | accepted (next : IsNext old x.msg) (statusOk : x.msg.status = .ok)
      (state : y.ctx.dqState = .ok) (seqNum : y.ctx.seqNum = x.msg.seqNum)
      (doNotForward : y.ctx.doNotForward = x.ctx.doNotForward) (msg : y.msg = x.msg)
      (acts : ∀ a, a ∈ y.acts ↔ a ∈ x.acts ∨ a = .unsetAllPossiblyStale ∨
        (a = .onQuality .ok ∧ x.ctx.dqState ≠ .ok ∧ x.ctx.dqState ≠ .notEstablished))
  | ignored (late : ¬ (IsNext old x.msg ∧ x.msg.status = .ok)) (ignored : IsIgnored t old x.msg)
      (state : y.ctx.dqState = x.ctx.dqState) (seqNum : y.ctx.seqNum = x.ctx.seqNum)
      (doNotForward : y.ctx.doNotForward) (msg : y.msg = x.msg)
      (acts : ∀ a ∈ y.acts, a ∈ x.acts ∨ a = .unsetAllPossiblyStale)
  | duplicate (late : ¬ (IsNext old x.msg ∧ x.msg.status = .ok))
      (counted : ¬ IsIgnored t old x.msg) (same : x.msg.seqNum = old.seqNum)
      (before : old.dqState ≠ .waitingForRecapAfterFt)
      (state : y.ctx.dqState = .duplicate) (seqNum : y.ctx.seqNum = x.ctx.seqNum)
      (doNotForward : y.ctx.doNotForward = x.ctx.doNotForward)
      (msg : y.msg = x.msg.setStatus .duplicate)
      (acts : ∀ a ∈ y.acts, a ∈ x.acts ∨ a = .unsetAllPossiblyStale ∨ a = .onQuality .duplicate)
  | held (late : ¬ (IsNext old x.msg ∧ x.msg.status = .ok))
      (counted : ¬ IsIgnored t old x.msg) (before : old.dqState = .waitingForRecapAfterFt)
      (state : y.ctx.dqState = x.ctx.dqState) (seqNum : y.ctx.seqNum = x.ctx.seqNum)
      (doNotForward : y.ctx.doNotForward) (msg : y.msg = x.msg)
      (acts : ∀ a ∈ y.acts, a ∈ x.acts ∨ a = .unsetAllPossiblyStale)
  | filled (late : ¬ IsNext old x.msg) (counted : ¬ IsIgnored t old x.msg)
      (new : x.msg.seqNum ≠ old.seqNum) (before : old.dqState ≠ .waitingForRecapAfterFt)
      (filled : IsFilled t x)
      (state : y.ctx.dqState = x.ctx.dqState) (seqNum : y.ctx.seqNum = x.msg.seqNum)
      (doNotForward : y.ctx.doNotForward = x.ctx.doNotForward) (msg : y.msg = x.msg)
      (acts : ∀ a ∈ y.acts, a ∈ x.acts ∨ ∃ m, a = .forward m)
  | gap (late : ¬ (IsNext old x.msg ∧ x.msg.status = .ok)) (counted : ¬ IsIgnored t old x.msg)
      (new : x.msg.seqNum ≠ old.seqNum) (before : old.dqState ≠ .waitingForRecapAfterFt)
      (unfilled : IsNext old x.msg ∨ ¬ IsFilled t x)
      (state : y.ctx.dqState = .waitingForRecap) (seqNum : y.ctx.seqNum = x.ctx.seqNum)
      (doNotForward : y.ctx.doNotForward = x.ctx.doNotForward)
      (msg : y.msg = x.msg.setStatus .stale) (onGap : .onGap ∈ y.acts)
      (spent : t.preInitialScheme = .onGap → y.tryToFillGap = false)
      (acts : ∀ a ∈ y.acts, a ∈ x.acts ∨ a = .unsetAllPossiblyStale ∨ (∃ m, a = .forward m) ∨
        a = .onGap ∨ a = .recapRequest ∨ a = .onQuality .stale)

/-! ### The parts of an update -/

theorem fillLoop_acts (c : Context) (last : UInt32) (turns : Nat) : ∀ (next : UInt32) (cur : Nat),
    ∀ a ∈ (c.fillLoop last turns next cur).2, ∃ m, a = Act.forward m := by
  induction turns with
  | zero => intro next cur a ha; cases ha
  | succ turns ih =>
    intro next cur a ha
    unfold Context.fillLoop at ha
    cases hslot : c.slot cur with
    | none => rw [hslot] at ha; cases ha
    | some m =>
      rw [hslot] at ha
      dsimp only at ha
      generalize (if cur + 1 = c.cache.length then 0 else cur + 1) = cur' at ha
      have hrest : ∀ n, ∀ a ∈ (if cur' = c.curCacheIdx then (false, [])
          else c.fillLoop last turns n cur').2, ∃ m, a = Act.forward m := by
        intro n a ha
        split at ha
        · cases ha
        · exact ih _ _ a ha
      split at ha
      · split at ha
        · exact ⟨_, mem_singleton.mp ha⟩
        · rcases mem_cons.mp ha with rfl | ha
          · exact ⟨_, rfl⟩
          · exact hrest _ a ha
      · exact hrest _ a ha

theorem fillGap_spec (c : Context) (last : UInt32) : (c.fillGap last).2.1.dqState = c.dqState ∧
    (c.fillGap last).2.1.seqNum = c.seqNum ∧ (c.fillGap last).2.1.doNotForward = c.doNotForward ∧
    (c.fillGap last).2.1.senderId = c.senderId ∧ ∀ a ∈ (c.fillGap last).2.2, ∃ m,
    a = Act.forward m := by
  unfold Context.fillGap
  split
  · exact ⟨rfl, rfl, rfl, rfl, fun a ha => by cases ha⟩
  · exact ⟨rfl, rfl, rfl, rfl, fillLoop_acts c last _ _ _⟩

theorem clearCache_spec (c : Context) :
    c.clearCache.dqState = c.dqState ∧ c.clearCache.seqNum = c.seqNum ∧
      c.clearCache.doNotForward = c.doNotForward ∧ c.clearCache.senderId = c.senderId := by
  unfold Context.clearCache
  split <;> exact ⟨rfl, rfl, rfl, rfl⟩

variable {t : Transport}

namespace Step

theorem handleStaleData_spec (x : Step) : x.handleStaleData.ctx.dqState = .waitingForRecap ∧
    x.handleStaleData.ctx.seqNum = x.ctx.seqNum ∧
    x.handleStaleData.ctx.doNotForward = x.ctx.doNotForward ∧
    x.handleStaleData.ctx.senderId = x.ctx.senderId ∧
    x.handleStaleData.tryToFillGap = x.tryToFillGap ∧
    x.handleStaleData.msg = x.msg.setStatus .stale ∧ (∀ a ∈ x.acts, a ∈ x.handleStaleData.acts) ∧
    ∀ a ∈ x.handleStaleData.acts, a ∈ x.acts ∨ a = .recapRequest ∨ a = .onQuality .stale := by
  unfold handleStaleData
  cases hstate : x.ctx.dqState <;>
    simp [hstate, sendRecapRequest, setState, setCtx, emit] <;> grind

theorem missedSeqNum_spec (t : Transport) (x : Step) :
    (missedSeqNum t x).ctx.senderId = x.ctx.senderId ∧
      (missedSeqNum t x).ctx.doNotForward = x.ctx.doNotForward ∧
      ((missedSeqNum t x).tryToFillGap → x.tryToFillGap) ∧
      (IsFilled t x ∧ (missedSeqNum t x).ctx.dqState = x.ctx.dqState ∧
          (missedSeqNum t x).ctx.seqNum = x.msg.seqNum ∧ (missedSeqNum t x).msg = x.msg ∧
          (∀ a ∈ (missedSeqNum t x).acts, a ∈ x.acts ∨ ∃ m, a = .forward m) ∨
        ¬ IsFilled t x ∧ (missedSeqNum t x).ctx.dqState = .waitingForRecap ∧
          (missedSeqNum t x).ctx.seqNum = x.ctx.seqNum ∧
          (missedSeqNum t x).msg = x.msg.setStatus .stale ∧ .onGap ∈ (missedSeqNum t x).acts ∧
          (t.preInitialScheme = .onGap → (missedSeqNum t x).tryToFillGap = false) ∧
          ∀ a ∈ (missedSeqNum t x).acts, a ∈ x.acts ∨ (∃ m, a = .forward m) ∨ a = .onGap ∨
            a = .recapRequest ∨ a = .onQuality .stale) := by
  have htold : ∀ z : Step, (∀ a ∈ z.acts, a ∈ x.acts ∨ ∃ m, a = .forward m) →
      .onGap ∈ ((z.emit .onGap).handleStaleData).acts ∧
        ∀ a ∈ ((z.emit .onGap).handleStaleData).acts, a ∈ x.acts ∨ (∃ m, a = .forward m) ∨
          a = .onGap ∨ a = .recapRequest ∨ a = .onQuality .stale := by
    intro z hz
    obtain ⟨-, -, -, -, -, -, hkept, hacts⟩ := (z.emit .onGap).handleStaleData_spec
    refine ⟨hkept _ (mem_append_right _ (mem_singleton_self _)), fun a ha => ?_⟩
    rcases hacts a ha with hold | hnew
    · rcases mem_append.mp hold with hold | hgap
      · exact (hz a hold).imp_right .inl
      · exact .inr (.inr (.inl (mem_singleton.mp hgap)))
    · exact .inr (.inr (.inr hnew))
  unfold missedSeqNum
  split
  · next htry =>
    obtain ⟨hstate, hseq, hforward, hsender, hacts⟩ := fillGap_spec x.ctx x.msg.seqNum
    cases hfill : x.ctx.fillGap x.msg.seqNum with
    | mk filled rest =>
      obtain ⟨c, acts⟩ := rest
      rw [hfill] at hstate hseq hforward hsender hacts
      dsimp only at hstate hseq hforward hsender hacts ⊢
      obtain ⟨hstate', hseq', hforward', hsender'⟩ := clearCache_spec c
      have hmem : ∀ a ∈ x.acts ++ acts, a ∈ x.acts ∨ ∃ m, a = Act.forward m :=
        fun a ha => (mem_append.mp ha).imp_right (hacts a)
      cases filled with
      | true =>
        have hfilled : IsFilled t x := ⟨htry.1, htry.2, by rw [hfill]⟩
        exact ⟨hsender'.trans hsender, hforward'.trans hforward, fun h => (by cases h),
          .inl ⟨hfilled, hstate'.trans hstate, rfl, rfl, hmem⟩⟩
      | false =>
        have hunfilled : ¬ IsFilled t x := by
          intro h
          have h' := h.2.2
          rw [hfill] at h'
          cases h'
        rw [if_neg Bool.false_ne_true]
        generalize hz : (⟨c.clearCache, false, x.msg, x.acts ++ acts⟩ : Step) = z
        obtain ⟨h₁, h₂, h₃, h₄, h₅, h₆, -, -⟩ := (z.emit .onGap).handleStaleData_spec
        obtain ⟨hgap, htells⟩ := htold z (by rw [← hz]; exact hmem)
        subst hz
        exact ⟨h₄.trans (hsender'.trans hsender), h₃.trans (hforward'.trans hforward),
          fun h => (by rw [h₅] at h; cases h),
          .inr ⟨hunfilled, h₁, h₂.trans (hseq'.trans hseq), h₆, hgap, fun _ => h₅, htells⟩⟩
  next htry =>
  have hunfilled : ¬ IsFilled t x := fun h => htry ⟨h.1, h.2.1⟩
  obtain ⟨h₁, h₂, h₃, h₄, h₅, h₆, -, -⟩ := (x.emit .onGap).handleStaleData_spec
  obtain ⟨hgap, htells⟩ := htold x fun a ha => .inl ha
  refine ⟨h₄, h₃, fun h => h₅.symm.trans h,
    .inr ⟨hunfilled, h₁, h₂, h₆, hgap, fun hscheme => ?_, htells⟩⟩
  have htry' : x.tryToFillGap = false := by
    cases hx : x.tryToFillGap with
    | false => rfl
    | true => exact (htry ⟨hscheme, hx⟩).elim
  exact h₅.trans htry'

/-- What `checkUpdate` hands to `checkDuplicate`: the same update, perhaps with the ring
cleared. -/
structure Late (t : Transport) (old : Context) (x z : Step) : Prop where
  late : ¬ (IsNext old x.msg ∧ x.msg.status = .ok)
  msg : z.msg = x.msg
  state : z.ctx.dqState = x.ctx.dqState
  seqNum : z.ctx.seqNum = x.ctx.seqNum
  doNotForward : z.ctx.doNotForward = x.ctx.doNotForward
  senderId : z.ctx.senderId = x.ctx.senderId
  tryToFillGap : z.tryToFillGap → x.tryToFillGap
  acts : ∀ a ∈ z.acts, a ∈ x.acts ∨ a = .unsetAllPossiblyStale
  filled : IsFilled t z → ¬ IsNext old x.msg ∧ IsFilled t x ∧ z.acts = x.acts
  unfilled : ¬ IsFilled t z → IsNext old x.msg ∨ ¬ IsFilled t x

theorem checkDuplicate_verdict {old : Context} {x z : Step} (h : Late t old x z) :
    Verdict t old x (checkDuplicate t old z) ∧
      (checkDuplicate t old z).ctx.senderId = x.ctx.senderId ∧
      ((checkDuplicate t old z).tryToFillGap → x.tryToFillGap) := by
  rw [checkDuplicate, h.msg]
  split
  · next hignored =>
    exact ⟨.ignored h.late ⟨hignored.1, hignored.2.1⟩ h.state h.seqNum rfl h.msg h.acts, h.senderId,
      h.tryToFillGap⟩
  next hcounted =>
  have hcounted' : ¬ IsIgnored t old x.msg := fun hi => hcounted ⟨hi.1, hi.2, ne_or_ne _⟩
  split
  · next hdup =>
    refine ⟨.duplicate h.late hcounted' hdup.1 hdup.2 rfl h.seqNum h.doNotForward ?_ ?_,
      h.senderId, h.tryToFillGap⟩
    · exact congrArg (Msg.setStatus · .duplicate) h.msg
    · intro a ha
      rcases mem_append.mp ha with hold | hnew
      · exact (h.acts a hold).imp_right .inl
      · exact .inr (.inr (mem_singleton.mp hnew))
  next hnew =>
  split
  · next hwaits =>
    exact ⟨.held h.late hcounted' hwaits h.state h.seqNum rfl h.msg h.acts, h.senderId,
      h.tryToFillGap⟩
  next hwaits =>
  have hnew' : x.msg.seqNum ≠ old.seqNum := fun heq => hnew ⟨heq, hwaits⟩
  obtain ⟨hsender, hforward, htry, hcases⟩ := missedSeqNum_spec t z
  refine ⟨?_, hsender.trans h.senderId, fun ht => h.tryToFillGap (htry ht)⟩
  rcases hcases with ⟨hfilled, hstate, hseq, hmsg, hacts⟩ |
    ⟨hunfilled, hstate, hseq, hmsg, hgap, hspent, hacts⟩
  · obtain ⟨hlate, hfilled', hsame⟩ := h.filled hfilled
    rw [h.msg] at hseq
    rw [hsame] at hacts
    exact .filled hlate hcounted' hnew' hwaits hfilled' (hstate.trans h.state) hseq
      (hforward.trans h.doNotForward) (hmsg.trans h.msg) hacts
  · rw [h.msg] at hmsg
    refine .gap h.late hcounted' hnew' hwaits (h.unfilled hunfilled) hstate
      (hseq.trans h.seqNum) (hforward.trans h.doNotForward) hmsg hgap hspent fun a ha => ?_
    rcases hacts a ha with hold | hnew
    · exact (h.acts a hold).imp_right .inl
    · exact .inr (.inr hnew)

/-- **What an update does.** -/
theorem checkUpdate_verdict (t : Transport) (old : Context) (x : Step) :
    Verdict t old x (checkUpdate t old x) ∧ (checkUpdate t old x).ctx.senderId = x.ctx.senderId ∧
    ((checkUpdate t old x).tryToFillGap → x.tryToFillGap) := by
  unfold checkUpdate
  split
  · next hnext =>
    have hcleaned : ∀ z : Step, z = (if x.tryToFillGap then
          { x.setCtx Context.clearCache with tryToFillGap := false } else x) →
        z.msg = x.msg ∧ z.acts = x.acts ∧ z.tryToFillGap = false ∧
          z.ctx.dqState = x.ctx.dqState ∧ z.ctx.seqNum = x.ctx.seqNum ∧
          z.ctx.doNotForward = x.ctx.doNotForward ∧ z.ctx.senderId = x.ctx.senderId := by
      rintro z rfl
      cases htry : x.tryToFillGap with
      | true => exact ⟨rfl, rfl, rfl, clearCache_spec x.ctx⟩
      | false => exact ⟨rfl, rfl, htry, rfl, rfl, rfl, rfl⟩
    dsimp only
    generalize hz : (if x.tryToFillGap then
      { x.setCtx Context.clearCache with tryToFillGap := false } else x) = z
    obtain ⟨hmsg, hacts, htry, hstate, hseq, hforward, hsender⟩ := hcleaned z hz.symm
    have hmsg' : (z.emit .unsetAllPossiblyStale).msg = x.msg := hmsg
    rw [hmsg']
    split
    · next hok =>
      have hreset : ∀ y : Step, (y.resetDqState.setCtx fun c =>
            { c with seqNum := y.resetDqState.msg.seqNum }).ctx.dqState = .ok ∧
          (y.resetDqState).ctx.doNotForward = y.ctx.doNotForward ∧
          (y.resetDqState).ctx.senderId = y.ctx.senderId ∧
          (y.resetDqState).msg = y.msg ∧ (y.resetDqState).tryToFillGap = y.tryToFillGap ∧
          ∀ a, a ∈ (y.resetDqState).acts ↔ a ∈ y.acts ∨
            (a = .onQuality .ok ∧ y.ctx.dqState ≠ .ok ∧ y.ctx.dqState ≠ .notEstablished) := by
        intro y
        unfold resetDqState
        split
        · next hne => simp [setState, setCtx, emit, hne]
        · next hne => simp [setState, setCtx, hne]
      obtain ⟨h₁, h₂, h₃, h₄, h₅, h₆⟩ := hreset (z.emit .unsetAllPossiblyStale)
      have hmsg'' := h₄.trans hmsg'
      refine ⟨.accepted hnext.1 hok h₁ ?_ (h₂.trans hforward) hmsg'' fun a => ?_,
        h₃.trans hsender, fun h => ?_⟩
      · rfl
      · refine (h₆ a).trans ?_
        show a ∈ z.acts ++ [.unsetAllPossiblyStale] ∨
          (_ ∧ z.ctx.dqState ≠ _ ∧ z.ctx.dqState ≠ _) ↔ _
        rw [hacts, hstate, mem_append, mem_singleton, or_assoc]
      · have h' := h₅.symm.trans h
        have h'' : z.tryToFillGap := h'
        rw [htry] at h''
        cases h''
    next hok =>
    refine checkDuplicate_verdict ⟨fun h => hok h.2, hmsg', hstate, hseq, hforward, hsender, ?_, ?_,
      ?_, fun _ => .inl hnext.1⟩
    · intro h
      have h' : z.tryToFillGap := h
      rw [htry] at h'
      cases h'
    · intro a ha
      rcases mem_append.mp ha with hold | hnew
      · exact .inl (hacts ▸ hold)
      · exact .inr (mem_singleton.mp hnew)
    · intro h
      have h' : z.tryToFillGap := h.2.1
      rw [htry] at h'
      cases h'
  · next hlate =>
    have hlate' : ¬ IsNext old x.msg := fun h => hlate ⟨h, ne_or_ne _⟩
    exact checkDuplicate_verdict ⟨fun h => hlate' h.1, rfl, rfl, rfl, rfl, rfl, id,
      fun a ha => .inl ha, fun h => ⟨hlate', h, rfl⟩, fun h => .inr h⟩

theorem resetDqState_msg (x : Step) : x.resetDqState.msg = x.msg := by
  unfold resetDqState
  split <;> rfl

theorem checkRecap_spec (t : Transport) (x : Step) : (checkRecap t x).ctx.dqState = .ok ∧
    (checkRecap t x).ctx.seqNum = x.msg.seqNum ∧ (checkRecap t x).ctx.senderId = x.msg.senderId ∧
    (checkRecap t x).ctx.doNotForward = false ∧ (checkRecap t x).msg = x.msg := by
  unfold checkRecap
  have hmsg : (if t.preRecapCacheEnabled then { x with tryToFillGap := true } else x).msg =
      x.msg := by
    split <;> rfl
  generalize (if t.preRecapCacheEnabled then { x with tryToFillGap := true } else x) = z at hmsg ⊢
  refine ⟨rfl, ?_, ?_, rfl, ?_⟩
  · exact congrArg Msg.seqNum hmsg
  · exact congrArg Msg.senderId hmsg
  · exact (resetDqState_msg (z.emit .unsetAllPossiblyStale)).trans hmsg

theorem checkInitial_spec (t : Transport) (x : Step) :
    ((checkInitial t x).ctx.dqState = .ok ∧ (checkInitial t x).ctx.doNotForward = false ∧
        x.msg.status ≠ .possiblyStale ∧ x.msg.status ≠ .stale ∨
      (checkInitial t x).ctx.dqState = .staleNoRecap ∧
        (checkInitial t x).ctx.doNotForward = x.ctx.doNotForward ∧
        (x.msg.status = .possiblyStale ∨ x.msg.status = .stale)) ∧
      (checkInitial t x).ctx.seqNum = x.msg.seqNum ∧
      (checkInitial t x).ctx.senderId = x.msg.senderId ∧ (checkInitial t x).msg = x.msg := by
  unfold checkInitial
  dsimp only
  split
  · next hstale => exact ⟨.inr ⟨rfl, rfl, hstale⟩, rfl, rfl, rfl⟩
  · next hstale =>
    obtain ⟨h₁, h₂, h₃, h₄, h₅⟩ := checkRecap_spec t { x with tryToFillGap := true }
    exact ⟨.inl ⟨h₁, h₄, fun h => hstale (.inl h), fun h => hstale (.inr h)⟩, h₂, h₃, h₅⟩

end Step

/-! ## One message -/

/-- An image: `INITIAL`, `RECAP` and their book variants. -/
def MsgType.isImage : MsgType → Bool
  | .initial | .bookInitial | .recap | .bookRecap => true
  | _ => false

/-- The context that the switch finds, after a takeover under `waitForRecap`. -/
def Context.entered (c : Context) (m : Msg) : Context :=
  if c.takenOver m then
    { c with doNotForward := true, seqNum := m.seqNum, dqState := .waitingForRecapAfterFt }
  else { c with doNotForward := false }

namespace Strategy

def enter (x : Strategy) (m : Msg) : Step := ⟨x.ctx.entered m, x.tryToFillGap, m, []⟩

theorem enter_state (x : Strategy) (m : Msg) : (x.enter m).ctx.dqState =
    if x.ctx.takenOver m then .waitingForRecapAfterFt else x.ctx.dqState := by
  unfold enter Context.entered
  cases x.ctx.takenOver m <;> rfl

theorem enter_doNotForward (x : Strategy) (m : Msg) :
    (x.enter m).ctx.doNotForward = x.ctx.takenOver m := by
  unfold enter Context.entered
  cases x.ctx.takenOver m <;> rfl

/-- **`checkSeqNum`**: a takeover that is not waited out, or the switch. -/
theorem check_eq (t : Transport) (x : Strategy) (m : Msg) :
    x.check t m = if x.ctx.takenOver m ∧ t.ftScheme ≠ .waitForRecap then
        ((⟨{ x.ctx with doNotForward := false }, x.tryToFillGap, m, []⟩ : Step).handleFTTakeover
          false)
      else (x.enter m).checkType t x.ctx := by
  unfold check checkSeqNum enter Context.entered
  cases htook : x.ctx.takenOver m with
  | false => simp [Step.setDoNotForward, Step.setCtx, htook]
  | true =>
    cases hft : t.ftScheme with
    | waitForRecap => simp [Step.setDoNotForward, Step.setCtx, Step.handleFTTakeover, htook]
    | doNotWaitForRecap => simp [Step.setDoNotForward, Step.setCtx, htook]

theorem checkType_update {old : Context} {x : Step} (himage : x.msg.msgType.isImage = false)
    (hddict : x.msg.msgType ≠ .ddictSnapshot) : x.checkType t old = x.checkUpdate t old := by
  unfold Step.checkType
  cases h : x.msg.msgType <;> rw [h] at himage hddict <;>
    first
    | rfl
    | exact (hddict rfl).elim
    | cases himage

/-! ## Waiting for a recap -/

/-- A message that may end the wait: an image, or a takeover that is not waited out. -/
def Ends (t : Transport) (x : Strategy) (m : Msg) : Prop :=
  m.msgType.isImage ∨ (x.ctx.takenOver m ∧ t.ftScheme ≠ .waitForRecap)

/-- The stream waits after the message too, and the client is not told that all is well. -/
def Waits (t : Transport) (x : Strategy) (m : Msg) : Prop :=
  (x.next t m).ctx.dqState = .waitingForRecap ∧ .onQuality .ok ∉ (x.check t m).acts

def WaitsUntil (t : Transport) (x : Strategy) (ms : List Msg) : Prop :=
  Lib.Until (next t) (Ends t) (Waits t) x ms

/-- The condition on a message that reaches a stream in wait: it has a number, other than the one
that is due and other than the latest, or it is late and ignored; a takeover does not go by
unnoticed. -/
def WaitOk (t : Transport) (c : Context) (m : Msg) : Prop :=
  if m.msgType = .ddictSnapshot then c.takenOver m = false
  else
    ¬ ((m.seqNum = 0 ∨ m.seqNum = c.seqNum + m.conflateCnt) ∧ m.status = .ok) ∧
      if t.dqScheme = .ignoreDups ∧ m.seqNum ≤ c.seqNum then c.takenOver m = false
      else m.seqNum ≠ c.seqNum

/-- A stream in wait has spent its one try to fill a gap. -/
def Spent (t : Transport) (x : Strategy) : Prop :=
  x.ctx.dqState = .waitingForRecap → t.preInitialScheme = .onGap → x.tryToFillGap = false

theorem next_ctx (t : Transport) (x : Strategy) (m : Msg) : (x.next t m).ctx = (x.check t m).ctx :=
  rfl

theorem isNext_of_waits {c : Context} (h : c.dqState = .waitingForRecap) (m : Msg) :
    IsNext c m ↔ m.seqNum = 0 ∨ m.seqNum = c.seqNum + m.conflateCnt := by
  rw [IsNext, h]
  simp

variable {x : Strategy}

/-- **One message of a wait.** -/
theorem waits_message (hspent : x.Spent t) (hwait : x.ctx.dqState = .waitingForRecap) {m : Msg}
    (hends : ¬ Ends t x m) : Waits t x m ↔ WaitOk t x.ctx m := by
  have himage : m.msgType.isImage = false := by
    cases h : m.msgType.isImage with
    | false => rfl
    | true => exact (hends (.inl h)).elim
  have hcheck : x.check t m = (x.enter m).checkType t x.ctx := by
    rw [check_eq, if_neg fun h => hends (.inr h)]
  have hstate : (x.enter m).ctx.dqState =
      if x.ctx.takenOver m then .waitingForRecapAfterFt else .waitingForRecap := by
    unfold enter Context.entered
    cases x.ctx.takenOver m with
    | true => rfl
    | false => exact hwait
  have hkept : (if x.ctx.takenOver m then State.waitingForRecapAfterFt else .waitingForRecap) =
      .waitingForRecap ↔ x.ctx.takenOver m = false := by
    cases x.ctx.takenOver m <;> simp
  rw [Waits, WaitOk, next_ctx, hcheck]
  by_cases hddict : m.msgType = .ddictSnapshot
  · have hsame : (x.enter m).checkType t x.ctx = x.enter m := by
      rw [Step.checkType, show (x.enter m).msg.msgType = .ddictSnapshot from hddict]
    rw [hsame, if_pos hddict, hstate, hkept]
    exact and_iff_left (by rintro ⟨⟩)
  rw [if_neg hddict, checkType_update (x := x.enter m) himage hddict]
  have hnext := isNext_of_waits hwait m
  obtain ⟨hverdict, -, -⟩ := Step.checkUpdate_verdict t x.ctx (x.enter m)
  generalize Step.checkUpdate t x.ctx (x.enter m) = y at hverdict
  have hquiet : ∀ {P : Act → Prop}, (∀ a ∈ y.acts, a ∈ (x.enter m).acts ∨ P a) →
      ¬ P (.onQuality .ok) → .onQuality .ok ∉ y.acts := by
    intro P hacts hP hok
    rcases hacts _ hok with h | h
    · cases h
    · exact hP h
  cases hverdict with
  | accepted next statusOk state =>
    refine iff_of_false (fun h => ?_) fun h => h.1 ⟨hnext.mp next, statusOk⟩
    rw [state] at h
    cases h.1
  | ignored late ignored state _ _ _ acts =>
    have hlate : ¬ ((m.seqNum = 0 ∨ m.seqNum = x.ctx.seqNum + m.conflateCnt) ∧
        m.status = .ok) := fun h => late ⟨hnext.mpr h.1, h.2⟩
    have hignored : t.dqScheme = .ignoreDups ∧ m.seqNum ≤ x.ctx.seqNum := ignored
    rw [state, hstate, hkept, and_iff_right hlate, if_pos hignored]
    exact and_iff_left (hquiet acts (by simp))
  | duplicate late counted same before state =>
    refine iff_of_false (fun h => ?_) fun h => ?_
    · rw [state] at h; cases h.1
    · have hcounted : ¬ (t.dqScheme = .ignoreDups ∧ m.seqNum ≤ x.ctx.seqNum) := counted
      rw [if_neg hcounted] at h
      exact h.2 same
  | held late counted before => rw [hwait] at before; cases before
  | filled late counted new before filled =>
    have hscheme := filled.1
    have htry : x.tryToFillGap := filled.2.1
    rw [hspent hwait hscheme] at htry
    cases htry
  | gap late counted new before unfilled state _ _ _ _ _ acts =>
    have hlate : ¬ ((m.seqNum = 0 ∨ m.seqNum = x.ctx.seqNum + m.conflateCnt) ∧
        m.status = .ok) := fun h => late ⟨hnext.mpr h.1, h.2⟩
    have hcounted : ¬ (t.dqScheme = .ignoreDups ∧ m.seqNum ≤ x.ctx.seqNum) := counted
    rw [and_iff_right hlate, if_neg hcounted]
    refine iff_of_true ⟨state, hquiet acts ?_⟩ new
    simp

theorem checkType_image {x : Step} (old : Context) (himage : x.msg.msgType.isImage) :
    (x.checkType t old).ctx.dqState ≠ .waitingForRecap ∧
      (x.checkType t old).ctx.dqState ≠ .waitingForRecapAfterFt ∧
      (x.checkType t old).ctx.senderId = x.msg.senderId := by
  have hinitial : (x.checkInitial t).ctx.dqState ≠ .waitingForRecap ∧
      (x.checkInitial t).ctx.dqState ≠ .waitingForRecapAfterFt ∧
      (x.checkInitial t).ctx.senderId = x.msg.senderId := by
    obtain ⟨⟨hstate, -⟩ | ⟨hstate, -⟩, -, hsender, -⟩ := Step.checkInitial_spec t x <;>
      simp [hstate, hsender]
  have hrecap : (x.checkRecap t).ctx.dqState ≠ .waitingForRecap ∧
      (x.checkRecap t).ctx.dqState ≠ .waitingForRecapAfterFt ∧
      (x.checkRecap t).ctx.senderId = x.msg.senderId := by
    obtain ⟨hstate, -, hsender, -⟩ := Step.checkRecap_spec t x
    simp [hstate, hsender]
  unfold Step.checkType
  cases h : x.msg.msgType <;> rw [h] at himage <;>
    first
    | exact hinitial
    | exact hrecap
    | cases himage

/-- The try to fill a gap is spent before a wait begins, and an image that gives it back ends the
wait. -/
theorem Spent.next (h : x.Spent t) (m : Msg) : (x.next t m).Spent t := by
  intro hstate hscheme
  have hold : x.ctx.dqState = .waitingForRecap → x.tryToFillGap = false := fun hw => h hw hscheme
  have hentered : (x.enter m).ctx.dqState = .waitingForRecap → x.tryToFillGap = false := by
    intro hw
    refine hold ?_
    unfold enter Context.entered at hw
    split at hw
    · cases hw
    · exact hw
  have hkept : ∀ y : Step, (y.tryToFillGap → x.tryToFillGap) →
      x.tryToFillGap = false → y.tryToFillGap = false := by
    intro y hy hx
    cases hb : y.tryToFillGap with
    | false => rfl
    | true => exact (hy hb).symm.trans hx
  change (x.check t m).ctx.dqState = _ at hstate
  show (x.check t m).tryToFillGap = false
  rw [check_eq] at hstate ⊢
  split at hstate
  · cases hstate
  next htook =>
  rw [if_neg htook]
  cases himage : m.msgType.isImage with
  | true => exact ((checkType_image (x := x.enter m) x.ctx himage).1 hstate).elim
  | false =>
    by_cases hddict : m.msgType = .ddictSnapshot
    · have hsame : (x.enter m).checkType t x.ctx = x.enter m := by
        rw [Step.checkType, show (x.enter m).msg.msgType = .ddictSnapshot from hddict]
      rw [hsame] at hstate ⊢
      exact hentered hstate
    rw [checkType_update (x := x.enter m) himage hddict] at hstate ⊢
    obtain ⟨hverdict, -, htry⟩ := Step.checkUpdate_verdict t x.ctx (x.enter m)
    generalize Step.checkUpdate t x.ctx (x.enter m) = y at hstate hverdict htry ⊢
    cases hverdict with
    | accepted _ _ state => rw [state] at hstate; cases hstate
    | ignored _ _ state => exact hkept y htry (hentered (state.symm.trans hstate))
    | duplicate _ _ _ _ state => rw [state] at hstate; cases hstate
    | held _ _ _ state => exact hkept y htry (hentered (state.symm.trans hstate))
    | filled _ _ _ _ _ state => exact hkept y htry (hentered (state.symm.trans hstate))
    | gap _ _ _ _ _ _ _ _ _ _ spent => exact spent hscheme

theorem Spent.run (h : x.Spent t) (ms : List Msg) : (x.run t ms).Spent t :=
  foldlRecOn ms _ h fun _ hx m _ => hx.next m

/-- **A stream that waits for a recap waits until one arrives** just where no message with the
number that is due, with number zero or with the latest number reaches it. -/
theorem waits_iff (t : Transport) {x : Strategy} (hx : x.ctx.dqState = .notEstablished)
    (ms : List Msg) :
    (∀ pre suf, ms = pre ++ suf → (x.run t pre).ctx.dqState = .waitingForRecap →
        WaitsUntil t (x.run t pre) suf) ↔
      ∀ pre m suf, ms = pre ++ m :: suf → (x.run t pre).ctx.dqState = .waitingForRecap →
        ¬ Ends t (x.run t pre) m → WaitOk t (x.run t pre).ctx m := by
  have hspent : x.Spent t := by
    intro h
    rw [hx] at h
    cases h
  constructor
  · intro hall pre m suf hms hwait hends
    rcases hall pre (m :: suf) hms hwait with h | ⟨hwaits, -⟩
    · exact (hends h).elim
    · exact (waits_message (hspent.run pre) hwait hends).mp hwaits
  rintro hall pre suf rfl hwait
  -- carried: the stream is still in wait
  refine Lib.until_of (P := fun qre => ((x.run t pre).run t qre).ctx.dqState = .waitingForRecap)
    hwait fun qre m rest hsuf hwait' hends => ?_
  have hrun : x.run t (pre ++ qre) = (x.run t pre).run t qre := foldl_append
  have hok := hall (pre ++ qre) m rest (by rw [hsuf, append_assoc])
  rw [hrun] at hok
  have hwaits := (waits_message ((hspent.run pre).run qre) hwait' hends).mpr (hok hwait' hends)
  refine ⟨hwaits, ?_⟩
  rw [run, foldl_concat]
  exact hwaits.1

/-! ### A wait that ends -/

/-- An update with number `s`. -/
def updateOf (type : MsgType) (s : UInt32) (sender : UInt64) : Msg :=
  ⟨type, s, sender, none, .ok, 0, 0⟩

def usual : Transport := ⟨.onGap, .deliverAll, .doNotWaitForRecap, false⟩

def fresh : Strategy := ⟨.initializeContext 4, false⟩

def gapped : List Msg := [updateOf .initial 5 1, updateOf .update 8 1]

/-- A number further on leaves the stream in wait. -/
theorem later_keeps_wait : WaitsUntil usual (fresh.run usual gapped) [updateOf .update 9 1] := by
  refine (waits_iff usual rfl _).mpr (fun pre m suf hms hwait _ => ?_) gapped
    [updateOf .update 9 1] rfl (by decide +kernel)
  rcases pre with _ | ⟨a, _ | ⟨b, _ | ⟨c, pre⟩⟩⟩
  · cases hwait
  · obtain ⟨rfl, -⟩ := List.cons.inj hms
    exact absurd hwait (by decide +kernel)
  · obtain ⟨ha, hms⟩ := List.cons.inj hms
    obtain ⟨hb, hms⟩ := List.cons.inj hms
    obtain ⟨rfl, -⟩ := List.cons.inj hms
    rw [← ha, ← hb]
    unfold WaitOk
    decide +kernel
  · have hlength := congrArg List.length hms
    simp [gapped] at hlength

/-- An update without a number ends the wait. -/
theorem zero_ends_wait : ¬ ∀ pre suf, gapped ++ [updateOf .update 0 1] = pre ++ suf →
    (fresh.run usual pre).ctx.dqState = .waitingForRecap →
      WaitsUntil usual (fresh.run usual pre) suf := by
  intro h
  rcases h gapped _ rfl (by decide +kernel) with h | ⟨h, -⟩
  · revert h
    unfold Ends
    decide +kernel
  · have := h.1
    revert this
    decide +kernel

end Strategy

end Dq

end Mama
