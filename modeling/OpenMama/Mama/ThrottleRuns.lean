import OpenMama.Mama.ThrottleQueue

/-!
# Runs of the throttle

Without a timer nothing waits, or the callback that destroyed it has quota left for all that
does (`Timed`); and the callback counts what it runs (`Counted`).
-/

namespace Mama.WombatThrottle

open Lib Relation Option List
open Common.WList (Node)

/-- How much of the quota is used up, once the callback is at it. -/
def Phase.used (sent : Nat) : Phase → Option Nat
  | .quota | .quotaRunning _ => some sent
  | .quotaSend => some (sent - 1)
  | _ => none

def Phase.keepsTimer : Phase → Bool
  | .drain | .drainSend | .drainRunning _ | .size | .destroyTimer => true
  | _ => false

/-- Actions that wait have a timer, or the quota of the callback covers them. -/
structure Timed (t : Throttle) (live : List Node) : Prop where
  timer : t.mTimer ∨ waiting t live = 0 ∨
    ∃ k, t.phase.used t.mMsgsSentThisInterval = some k ∧ k + waiting t live ≤ t.mMessagesPerInterval
  keeps : t.phase.keepsTimer → t.mTimer
  reset : t.phase = .destroyTimer → t.mMsgsSentThisInterval = 0

/-- What a callback under a positive rate has run by a point of it. -/
def CallbackAt (c : Callback) (sent : Nat) : Phase → Prop
  | .idle => c.ran ≤ c.limit
  | .drain | .size | .destroyTimer => c.ran = 0
  | .drainSend | .drainRunning _ => False
  | .quota | .quotaRunning _ => c.ran = sent ∧ sent ≤ c.limit
  | .quotaSend => c.ran + 1 = sent ∧ sent ≤ c.limit

/-- No callback under a positive rate ran more than its quota, or nothing with actions in the
list. -/
def Callback.Sound (c : Callback) : Prop :=
  c.positive → c.ran ≤ c.limit ∧ (c.ran = 0 → c.foundEmpty)

structure Counted (t : Throttle) : Prop where
  messages : 1 ≤ t.mMessagesPerInterval
  limit : t.mMessagesPerInterval ≤ t.callback.limit
  rate : t.callback.positive → 0 < t.mRate
  callback : t.callback.positive → CallbackAt t.callback t.mMsgsSentThisInterval t.phase
  callbacks : ∀ c ∈ t.callbacks, c.Sound

variable {product : ℚ → ℚ → ℚ} {t t' : Throttle} {live live' free : List Node}

/-! ## Calls -/

theorem Timed.calls (h : Timed t live) (hframe : Frame t t')
    (hwaiting : waiting t' live' ≤ waiting t live ∨ t'.mTimer) : Timed t' live' := by
  constructor
  · rcases hwaiting with hle | htimer
    · rcases h.timer with htimer | hzero | ⟨k, hused, hk⟩
      · exact .inl (hframe.timer htimer)
      · exact .inr (.inl (by omega))
      · refine .inr (.inr ⟨k, ?_, ?_⟩)
        · rwa [hframe.phase, hframe.sent]
        · rw [hframe.messages]; omega
    · exact .inl htimer
  · intro hphase
    rw [hframe.phase] at hphase
    exact hframe.timer (h.keeps hphase)
  · rw [hframe.phase, hframe.sent]; exact h.reset

theorem Counted.calls (h : Counted t) (hframe : Frame t t') : Counted t' := by
  constructor
  · rw [hframe.messages]; exact h.messages
  · rw [hframe.messages, hframe.callback]; exact h.limit
  · rw [hframe.callback, hframe.rate]; exact h.rate
  · rw [hframe.callback, hframe.sent, hframe.phase]; exact h.callback
  · rw [hframe.callbacks]; exact h.callbacks

structure Whole (t : Throttle) (live free : List Node) : Prop where
  inv : Inv t live free
  timed : Timed t live
  counted : Counted t

/-- A step keeps all of it, with an effect on the actions. -/
def Keeps (t t' : Throttle) (live : List Node) : Prop :=
  ∃ live' free', Whole t' live' free' ∧ ReflTransGen Effect (trace t live) (trace t' live')

section

variable (h : Whole t live free)

include h

theorem Whole.calls (hcalls : Calls t t' live) : Keeps t t' live := by
  obtain ⟨live', free', hinv, heffects, hframe, hwaiting⟩ := hcalls
  exact ⟨live', free', ⟨hinv, h.timed.calls hframe hwaiting, h.counted.calls hframe⟩, heffects⟩

theorem Whole.removeAction {n : Nat}
    (hrun : step product t (.removeAction n) = some t') : Keeps t t' live := by
  simp only [step] at hrun
  obtain ⟨hready, hrun⟩ := ite_none_right_eq_some.1 hrun
  obtain ⟨henqueuing, hhandle⟩ := hready
  obtain ⟨t₁, hremove, h₁, hremoval⟩ := h.inv.removeElement henqueuing n
  rw [hremove] at hrun
  cases hrun
  obtain ⟨live', free', h₁', heffects, hframe, hwaiting⟩ := hremoval.calls h₁
  refine h.calls ⟨live', free', ⟨h₁'.list, h₁'.places, h₁'.enqueuing, ?_⟩, heffects,
    ⟨hframe.rate, hframe.sent, hframe.messages, hframe.phase, hframe.callback, hframe.callbacks,
      hframe.timer⟩, hwaiting⟩
  rintro info (hphase | hphase | hfreeing)
  · exact h₁'.running info (.inl hphase)
  · exact h₁'.running info (.inr (.inl hphase))
  · have hmem : info ∈ Node.element n :: t₁.freeing := hfreeing
    rcases mem_cons.1 hmem with rfl | hmem
    · refine ⟨n, ?_, rfl⟩
      rw [hremoval.allocated]
      exact of_decide_eq_true hhandle
    · exact h₁'.running info (.inr (.inr hmem))

theorem Whole.freeAction {n : Nat}
    (hrun : step product t (.freeAction n) = some t') : Keeps t t' live := by
  simp only [step] at hrun
  obtain ⟨hready, hrun⟩ := ite_none_right_eq_some.1 hrun
  obtain ⟨henqueuing, hfreeing⟩ := hready
  cases hrun
  obtain ⟨m, hm, heq⟩ := h.inv.running (.element n) (.inr (.inr hfreeing))
  obtain rfl := Node.element.inj heq
  obtain ⟨⟨free', hfree⟩, hremoval⟩ := h.inv.freeElement henqueuing hm
  obtain ⟨live', free', h₁', heffects, hframe, hwaiting⟩ := hremoval.calls hfree
  refine h.calls ⟨live', free', ⟨h₁'.list, h₁'.places, h₁'.enqueuing, ?_⟩, heffects,
    ⟨hframe.rate, hframe.sent, hframe.messages, hframe.phase, hframe.callback, hframe.callbacks,
      hframe.timer⟩, hwaiting⟩
  rintro info (hphase | hphase | hfreeing)
  · exact h₁'.running info (.inl hphase)
  · exact h₁'.running info (.inr (.inl hphase))
  · exact h₁'.running info (.inr (.inr (mem_of_mem_erase hfreeing)))

end

/-! ## The rate -/

theorem setRate_eq (t : Throttle) (product : ℚ → ℚ → ℚ) (rate : ℚ) :
    ∃ interval messages, setRate t product rate = { t with
        mRate := if rate < 0 then 0 else rate
        mInterval := interval
        mMessagesPerInterval := messages
        callback := { t.callback with
          limit := max t.callback.limit messages
          positive := t.callback.positive && decide (0 < if rate < 0 then 0 else rate) } } ∧
      (rate ≤ 0 ∧ 1 ≤ t.mMessagesPerInterval ∨ 1 ≤ rate → 1 ≤ messages) := by
  have hzero : 1 ≤ rate → (if rate < 0 then 0 else rate) ≠ 0 ∧
      1 ≤ if rate < 0 then 0 else rate := by
    intro hrate
    have hpos : 0 < rate := lt_of_lt_of_le zero_lt_one hrate
    rw [if_neg (not_lt.2 hpos.le)]
    exact ⟨hpos.ne', hrate⟩
  have hnone : rate ≤ 0 → (if rate < 0 then 0 else rate) = 0 := by
    intro hrate
    split
    · rfl
    · rename_i hneg
      exact le_antisymm hrate (not_lt.1 hneg)
  unfold setRate
  generalize (if rate < 0 then 0 else rate) = r at hzero hnone
  by_cases hr : r = 0
  · simp only [hr]
    refine ⟨t.mInterval, t.mMessagesPerInterval, rfl, ?_⟩
    rintro (⟨-, hmessages⟩ | hrate)
    · exact hmessages
    · exact absurd hr (hzero hrate).1
  by_cases hten : r < 10
  · simp only [hr, hten]
    refine ⟨1, ⌊r⌋.toNat, rfl, ?_⟩
    rintro (⟨hrate, -⟩ | hrate)
    · exact absurd (hnone hrate) hr
    · have hone : 1 ≤ ⌊r⌋ := Int.le_floor.2 (by simpa using (hzero hrate).2)
      omega
  · simp only [hr, hten, if_false]
    refine ⟨t.mInterval, _, rfl, fun _ => ?_⟩
    split <;> omega

variable {phase : Phase}

theorem CallbackAt.limit {c : Callback} {sent : Nat} (h : CallbackAt c sent phase) (limit : Nat)
    (positive : Bool) :
    CallbackAt { c with limit := max c.limit limit, positive := positive } sent phase := by
  have hle : c.limit ≤ max c.limit limit := Nat.le_max_left _ _
  cases phase with
  | idle => exact Nat.le_trans h hle
  | drain | size | destroyTimer => exact h
  | drainSend | drainRunning => exact h
  | quota | quotaSend | quotaRunning => exact ⟨h.1, Nat.le_trans h.2 hle⟩

/-- The rate is none or one message at least, and a quota without a timer covers what waits. -/
def MeetsRate (product : ℚ → ℚ → ℚ) (t : Throttle) (rate : ℚ) : Prop :=
  (rate ≤ 0 ∨ 1 ≤ rate) ∧ (t.mTimer = false → ∀ k, t.phase.used t.mMsgsSentThisInterval = some k →
    k + (t.mMsgQueue.size + if t.enqueuing.isSome then 1 else 0) ≤
      (setRate t product rate).mMessagesPerInterval)

section

variable (h : Whole t live free)

include h

theorem Whole.setRate {rate : ℚ} (hmeets : MeetsRate product t rate) :
    Keeps t (setRate t product rate) live := by
  obtain ⟨hrate, hquota⟩ := hmeets
  obtain ⟨interval, messages, heq, hmessages⟩ := setRate_eq t product rate
  rw [heq] at hquota ⊢
  have hpositive := hmessages (hrate.imp_left fun hle => ⟨hle, h.counted.messages⟩)
  refine ⟨live, free, ⟨⟨h.inv.list, h.inv.places, h.inv.enqueuing, h.inv.running⟩,
    ⟨?_, h.timed.keeps, h.timed.reset⟩,
    ⟨hpositive, Nat.le_max_right _ _, fun hpos => ?_, fun hpos => ?_, h.counted.callbacks⟩⟩,
    ReflTransGen.refl⟩
  · rcases h.timed.timer with htimer | hzero | ⟨k, hused, -⟩
    · exact .inl htimer
    · exact .inr (.inl hzero)
    · cases htimer : t.mTimer with
      | true => exact .inl rfl
      | false =>
        refine .inr (.inr ⟨k, hused, ?_⟩)
        have hle := hquota htimer k hused
        rwa [h.inv.list.rep.size] at hle
  · have hboth := Bool.and_eq_true_iff.1 hpos
    exact of_decide_eq_true hboth.2
  · have hboth := Bool.and_eq_true_iff.1 hpos
    exact (h.counted.callback hboth.1).limit _ _

/-! ## The timer -/

theorem Whole.fire (hrun : fire t = some t') : Keeps t t' live := by
  unfold WombatThrottle.fire at hrun
  obtain ⟨hready, hrun⟩ := ite_none_right_eq_some.1 hrun
  cases hrun
  refine ⟨live, free, ⟨⟨h.inv.list, h.inv.places, h.inv.enqueuing, ?_⟩,
    ⟨.inl hready.1, fun _ => hready.1, nofun⟩, ⟨h.counted.messages, Nat.le_refl _, ?_, fun _ => rfl,
      h.counted.callbacks⟩⟩, ReflTransGen.refl⟩
  · rintro info (hphase | hphase | hfreeing)
    · cases hphase
    · cases hphase
    · exact h.inv.running info (.inr (.inr hfreeing))
  · exact fun hpos => of_decide_eq_true hpos

omit h in
theorem Inv.moves (h : Inv t live free) (timer : Bool) (sent : Nat) (callback : Callback)
    (callbacks : List Callback)
    (hphase : ∀ info, phase ≠ .drainRunning info ∧ phase ≠ .quotaRunning info) : Inv { t with
      mTimer := timer
      mMsgsSentThisInterval := sent
      phase := phase
      callback := callback
      callbacks := callbacks } live free := by
  refine ⟨h.list, h.places, h.enqueuing, ?_⟩
  rintro info (hrunning | hrunning | hfreeing)
  · exact absurd hrunning (hphase info).1
  · exact absurd hrunning (hphase info).2
  · exact h.running info (.inr (.inr hfreeing))

theorem Whole.finish (sent : Nat) (foundEmpty : Bool) (hwaiting : t.mTimer ∨ waiting t live = 0)
    (hsound : Callback.Sound { t.callback with foundEmpty := foundEmpty }) :
    Keeps t (finish { t with mMsgsSentThisInterval := sent } foundEmpty) live := by
  refine ⟨live, free, ⟨h.inv.moves _ _ _ _ (by simp), ⟨hwaiting.imp_right .inl, fun hkeeps => ?_,
      fun hphase => absurd hphase (by simp [WombatThrottle.finish])⟩,
        ⟨h.counted.messages, h.counted.limit, h.counted.rate, fun hpos => (hsound hpos).1, ?_⟩⟩,
    ReflTransGen.refl⟩
  · exact absurd hkeeps (by simp [WombatThrottle.finish, Phase.keepsTimer])
  · intro c hc
    rcases mem_append.1 hc with hc | hc
    · exact h.counted.callbacks c hc
    · obtain rfl := mem_singleton.1 hc; exact hsound

theorem Whole.finishAction (henqueuing : t.enqueuing = none) {info : Node}
    (hinfo : t.phase = .drainRunning info ∨ t.phase = .quotaRunning info)
    (hphase : ∀ info, phase ≠ .drainRunning info ∧ phase ≠ .quotaRunning info)
    (hused : phase.used t.mMsgsSentThisInterval = t.phase.used t.mMsgsSentThisInterval)
    (hkeeps : phase.keepsTimer = t.phase.keepsTimer) (hreset : phase ≠ .destroyTimer)
    (hcallback : CallbackAt t.callback t.mMsgsSentThisInterval t.phase →
      CallbackAt t.callback t.mMsgsSentThisInterval phase) :
    Keeps t { freeElement t info with phase := phase } live := by
  obtain ⟨n, hn, rfl⟩ := h.inv.running info (hinfo.imp_right .inl)
  obtain ⟨⟨free', hfree⟩, -⟩ := h.inv.freeElement henqueuing hn
  refine ⟨live, free', ⟨hfree.moves _ _ _ _ hphase, ⟨?_, fun hk => h.timed.keeps (hkeeps ▸ hk),
      fun heq => absurd heq hreset⟩, ⟨h.counted.messages, h.counted.limit, h.counted.rate,
        fun hpos => hcallback (h.counted.callback hpos),
      h.counted.callbacks⟩⟩, ReflTransGen.refl⟩
  rcases h.timed.timer with htimer | hzero | ⟨k, hk, hle⟩
  · exact .inl htimer
  · exact .inr (.inl hzero)
  · exact .inr (.inr ⟨k, hused.trans hk, hle⟩)

/-- The callback goes on to a phase: where it stands there is left to show. -/
theorem Whole.goesOn (timer : Bool) (sent : Nat)
    (hphase : ∀ info, phase ≠ .drainRunning info ∧ phase ≠ .quotaRunning info)
    (htimed : Timed { t with mTimer := timer, mMsgsSentThisInterval := sent, phase := phase } live)
    (hcallback : t.callback.positive → CallbackAt t.callback sent phase) :
    Keeps t { t with mTimer := timer, mMsgsSentThisInterval := sent, phase := phase } live :=
  ⟨live, free, ⟨h.inv.moves _ _ _ _ hphase, htimed,
    ⟨h.counted.messages, h.counted.limit, h.counted.rate, hcallback, h.counted.callbacks⟩⟩,
    ReflTransGen.refl⟩

theorem Whole.goesOn_timer (htimer : t.mTimer) (sent : Nat)
    (hphase : ∀ info, phase ≠ .drainRunning info ∧ phase ≠ .quotaRunning info)
    (hreset : phase = .destroyTimer → sent = 0)
    (hcallback : t.callback.positive → CallbackAt t.callback sent phase) :
    Keeps t { t with mMsgsSentThisInterval := sent, phase := phase } live :=
  h.goesOn t.mTimer sent hphase ⟨.inl htimer, fun _ => htimer, hreset⟩ hcallback

omit h in
/-- Outside the phases that hold the timer, the quota covers what waits, or a timer does. -/
theorem Timed.of_covered (hphase : t.phase = phase) (hkeeps : phase.keepsTimer = false)
    (htimer : t.mTimer ∨ waiting t live = 0 ∨ ∃ k, phase.used t.mMsgsSentThisInterval = some k ∧
      k + waiting t live ≤ t.mMessagesPerInterval) :
    Timed t live := by
  subst hphase
  refine ⟨htimer, fun hk => absurd (hkeeps.symm.trans hk) (by simp), fun hreset => ?_⟩
  rw [hreset] at hkeeps
  exact absurd hkeeps (by simp [Phase.keepsTimer])

theorem Whole.timerCB
    (hmeets : t.phase = .destroyTimer →
      t.mMsgQueue.size + (if t.enqueuing.isSome then 1 else 0) ≤ t.mMessagesPerInterval)
    (hrun : timerCB t = some t') : Keeps t t' live := by
  have hcallback := h.counted.callback
  have htimer := h.timed.timer
  have hkeeps := h.timed.keeps
  unfold WombatThrottle.timerCB at hrun
  cases hphase : t.phase with
  | idle => rw [hphase] at hrun; cases hrun
  | drain =>
    rw [hphase] at hrun hcallback hkeeps
    cases hrun
    by_cases hzero : t.mRate = 0
    · rw [if_pos hzero]
      exact h.goesOn_timer (hkeeps rfl) _ (by simp) (by simp) fun hpos =>
        absurd hzero (ne_of_gt (h.counted.rate hpos))
    · rw [if_neg hzero]; exact h.goesOn_timer (hkeeps rfl) _ (by simp) (by simp) hcallback
  | drainSend =>
    rw [hphase] at hrun hcallback hkeeps
    simp only at hrun
    obtain ⟨henqueuing, hrun⟩ := ite_none_right_eq_some.1 hrun
    rcases h.inv.sendQueuedMessage henqueuing (.inl rfl) hrun with
      ⟨rfl, rfl⟩ | ⟨e, ys, l, rfl, hinv, heffect, rfl⟩
    · exact h.goesOn_timer (hkeeps rfl) _ (by simp) (by simp) fun hpos => (hcallback hpos).elim
    · exact ⟨ys, free, ⟨hinv, ⟨.inl (hkeeps rfl), fun _ => hkeeps rfl, by simp⟩,
        ⟨h.counted.messages, h.counted.limit, h.counted.rate, fun hpos => (hcallback hpos).elim,
          h.counted.callbacks⟩⟩, ReflTransGen.single heffect⟩
  | drainRunning info =>
    rw [hphase] at hrun
    simp only at hrun
    obtain ⟨henqueuing, hrun⟩ := ite_none_right_eq_some.1 hrun
    cases hrun
    exact h.finishAction henqueuing (.inl hphase) (by simp) (by rw [hphase]; rfl)
      (by rw [hphase]; rfl)
      (by simp) fun hat => by
        rw [hphase] at hat; exact hat.elim
  | size =>
    rw [hphase] at hrun hcallback hkeeps
    cases hrun
    by_cases hempty : t.mMsgQueue.size = 0
    · rw [if_pos hempty]; exact h.goesOn_timer (hkeeps rfl) _ (by simp) (fun _ => rfl) hcallback
    · rw [if_neg hempty]
      exact h.goesOn_timer (hkeeps rfl) _ (by simp) (by simp)
        fun hpos => ⟨hcallback hpos, Nat.zero_le _⟩
  | destroyTimer =>
    rw [hphase] at hrun hcallback
    cases hrun
    have hreset := h.timed.reset hphase
    have hle := hmeets hphase
    rw [h.inv.list.rep.size] at hle
    refine h.goesOn _ _ (by simp) (.of_covered rfl rfl (.inr (.inr ⟨0, congrArg some hreset, ?_⟩)))
      fun hpos => ?_
    · rwa [Nat.zero_add]
    · show t.callback.ran = t.mMsgsSentThisInterval ∧ t.mMsgsSentThisInterval ≤ t.callback.limit
      rw [hreset]
      exact ⟨hcallback hpos, Nat.zero_le _⟩
  | quota =>
    rw [hphase] at hrun hcallback htimer
    simp only at hrun
    have hlimit := h.counted.limit
    split at hrun
    case isTrue hmore =>
      cases hrun
      refine h.goesOn _ _ (by simp) (.of_covered rfl rfl htimer) fun hpos => ?_
      obtain ⟨hran, -⟩ := hcallback hpos
      refine ⟨congrArg Nat.succ hran, ?_⟩
      omega
    case isFalse hdone =>
      cases hrun
      have hmessages := h.counted.messages
      refine h.finish _ false ?_ fun hpos => ?_
      · rcases htimer with htimer | hzero | ⟨k, hk, hle⟩
        · exact .inl htimer
        · exact .inr hzero
        · obtain rfl : t.mMsgsSentThisInterval = k := some.inj hk; omega
      · obtain ⟨hran, hle⟩ := hcallback hpos
        refine ⟨hran.trans_le hle, fun hnone => ?_⟩
        have hnone' : t.callback.ran = 0 := hnone
        omega
  | quotaSend =>
    rw [hphase] at hrun hcallback htimer
    simp only at hrun
    obtain ⟨henqueuing, hrun⟩ := ite_none_right_eq_some.1 hrun
    rcases h.inv.sendQueuedMessage henqueuing (.inr rfl) hrun with
      ⟨rfl, rfl⟩ | ⟨e, ys, l, rfl, hinv, heffect, rfl⟩
    · refine h.finish t.mMsgsSentThisInterval true (.inr ?_) fun hpos => ⟨?_, fun _ => rfl⟩
      · rw [waiting, henqueuing]; rfl
      · obtain ⟨hran, hle⟩ := hcallback hpos
        show t.callback.ran ≤ t.callback.limit
        omega
    refine ⟨ys, free, ⟨hinv, .of_covered rfl rfl ?_, ⟨h.counted.messages, h.counted.limit,
      h.counted.rate, hcallback, h.counted.callbacks⟩⟩, ReflTransGen.single heffect⟩
    have hwaiting : waiting t (e :: ys) = ys.length + 1 := by
      rw [waiting, henqueuing]; rfl
    rcases htimer with htimer | hzero | ⟨k, hk, hle⟩
    · exact .inl htimer
    · omega
    · obtain rfl : t.mMsgsSentThisInterval - 1 = k := some.inj hk
      refine .inr (.inr ⟨t.mMsgsSentThisInterval, rfl, ?_⟩)
      rw [henqueuing]
      show t.mMsgsSentThisInterval + (ys.length + 0) ≤ t.mMessagesPerInterval
      omega
  | quotaRunning info =>
    rw [hphase] at hrun
    simp only at hrun
    obtain ⟨henqueuing, hrun⟩ := ite_none_right_eq_some.1 hrun
    cases hrun
    exact h.finishAction henqueuing (.inr hphase) (by simp) (by rw [hphase]; rfl)
      (by rw [hphase]; rfl)
      (by simp) fun hat => by
        rwa [hphase] at hat

/-! ## Whole runs -/

/-- The rate is set as above, and the timer is only destroyed while what waits is within the quota
of the callback. -/
def Meets (product : ℚ → ℚ → ℚ) (t : Throttle) : Label → Prop
  | .setRate rate => MeetsRate product t rate
  | .timerCB => t.phase = .destroyTimer →
      t.mMsgQueue.size + (if t.enqueuing.isSome then 1 else 0) ≤ t.mMessagesPerInterval
  | _ => True

theorem Whole.step {c : Label} (hmeets : Meets product t c)
    (hrun : step product t c = some t') : Keeps t t' live := by
  cases c with
  | dispatch owner immediate => cases hrun; exact h.calls (h.inv.dispatch owner immediate)
  | enqueueBegin call =>
    simp only [WombatThrottle.step] at hrun
    obtain ⟨hready, hrun⟩ := ite_none_right_eq_some.1 hrun
    cases hrun
    exact h.calls (h.inv.enqueueBegin hready.1 hready.2)
  | enqueueEnd => exact h.calls (h.inv.enqueueEnd hrun)
  | removeAction n => exact h.removeAction hrun
  | freeAction n => exact h.freeAction hrun
  | removeMessagesForOwner owner =>
    simp only [WombatThrottle.step] at hrun
    obtain ⟨henqueuing, hrun⟩ := ite_none_right_eq_some.1 hrun
    obtain ⟨t₁, hremove, live', free', h₁, hremoval⟩ :=
      h.inv.removeMessagesForOwner henqueuing owner
    cases hremove.symm.trans hrun
    exact h.calls (hremoval.calls h₁)
  | removeMessagesFromList handles =>
    simp only [WombatThrottle.step] at hrun
    obtain ⟨hready, hrun⟩ := ite_none_right_eq_some.1 hrun
    obtain ⟨t₁, hremove, live', free', h₁, hremoval⟩ :=
      h.inv.removeMessagesFromList hready.1 fun n hn =>
        of_decide_eq_true (all_eq_true.1 hready.2 n hn)
    cases hremove.symm.trans hrun
    exact h.calls (hremoval.calls h₁)
  | setRate rate => cases hrun; exact h.setRate hmeets
  | fire => exact h.fire hrun
  | timerCB => exact h.timerCB hmeets hrun

omit h in
theorem whole_create (product : ℚ → ℚ → ℚ) : Whole (create product) [] [] := by
  obtain ⟨interval, messages, heq, hmessages⟩ := setRate_eq {} product defaultRate
  rw [create, heq]
  refine ⟨⟨Common.WList.inv_create _, fun a => rfl, fun _ _ h => absurd h (by simp), ?_⟩,
    ⟨.inr (.inl rfl), fun h => absurd h (by simp [Phase.keepsTimer]), by simp⟩,
    ⟨hmessages (.inr (by norm_num [defaultRate])), Nat.le_max_right _ _, fun _ => ?_,
      fun _ => Nat.zero_le _, fun c hc => absurd hc (by simp)⟩⟩
  · rintro info (hphase | hphase | hfreeing)
    · cases hphase
    · cases hphase
    · cases hfreeing
  · show 0 < if defaultRate < 0 then 0 else defaultRate
    norm_num [defaultRate]

def queue (t : Throttle) : List Nat :=
  (Common.WList.walk t.mMsgQueue.mNext t.mMsgQueue.size .head).map fun e => (t.info e).action

/-- No action ran twice; no callback under a positive rate ran more than its quota, or none with
actions in the list; and what waits has a timer when no operation is in progress. -/
def Throttled (t : Throttle) : Prop :=
  t.ran.Nodup ∧
    (t.callback.positive → t.callback.ran ≤ t.callback.limit) ∧
    (∀ c ∈ t.callbacks, c.Sound) ∧
    (t.phase = .idle → t.enqueuing = none → queue t ≠ [] → t.mTimer)

/-- Whenever one action is ahead of another in the list, it runs first, or is taken off. -/
def InOrder (product : ℚ → ℚ → ℚ) (t : Throttle) : Prop :=
  ∀ a b t', [a, b].Sublist (queue t) → Runs (step product) (Meets product) t t' → b ∈ t'.ran →
    a ∈ t'.removed ∨ [a, b].Sublist t'.ran

omit h in
theorem Inv.queue_eq (h : Inv t live free) : queue t = actions t live := by
  rw [queue, h.list.rep.walk_eq, actions]

omit h in
theorem Inv.count_le (h : Inv t live free) (a : Nat) :
    t.ran.count a + (actions t live).count a + t.removed.count a ≤ 1 := by
  have hplaces := h.places a
  have hone : (List.range t.dispatched).count a ≤ 1 := nodup_iff_count_le_one.1 nodup_range a
  omega

omit h in
theorem CallbackAt.ran_le {c : Callback} {sent : Nat} (h : CallbackAt c sent phase) :
    c.ran ≤ c.limit := by
  cases phase with
  | idle => exact h
  | drain | size | destroyTimer =>
    have hnone : c.ran = 0 := h
    omega
  | drainSend | drainRunning => exact h.elim
  | quota | quotaRunning => exact h.1.trans_le h.2
  | quotaSend =>
    obtain ⟨hran, hle⟩ := h
    omega

theorem Whole.throttled : Throttled t := by
  refine ⟨nodup_iff_count_le_one.2 fun a => ?_, fun hpos => (h.counted.callback hpos).ran_le,
    h.counted.callbacks, fun hphase henqueuing hqueue => ?_⟩
  · have hle := h.inv.count_le a
    omega
  rcases h.timed.timer with htimer | hzero | ⟨k, hk, -⟩
  · exact htimer
  · have hlen : live.length = 0 := by
      rw [waiting] at hzero; omega
    rw [h.inv.queue_eq, length_eq_zero_iff.1 hlen] at hqueue
    exact absurd rfl hqueue
  · rw [hphase] at hk; exact absurd hk (by simp [Phase.used])

theorem Whole.runs (hrun : Runs (WombatThrottle.step product) (Meets product) t t') :
    Keeps t t' live := by
  refine hrun.invariant (P := fun t' => Keeps t t' live) ⟨live, free, h, ReflTransGen.refl⟩ ?_
  rintro t₁ c t₂ ⟨live₁, free₁, h₁, heffects₁⟩ hmeets hstep
  obtain ⟨live₂, free₂, h₂, heffects₂⟩ := h₁.step hmeets hstep
  exact ⟨live₂, free₂, h₂, heffects₁.trans heffects₂⟩

theorem Whole.inOrder : InOrder product t := by
  intro a b t' hahead hrun hb
  obtain ⟨live', free', h', heffects⟩ := h.runs hrun
  rw [h.inv.queue_eq] at hahead
  have hordered : Ordered a b (trace t live) := .inr (.inr (.inr (.inl hahead)))
  have hcount := h'.inv.count_le b
  have hran : 0 < t'.ran.count b := count_pos_iff.2 hb
  have hnotQueued : b ∉ actions t' live' := fun hmem => by
    have hpos := count_pos_iff.2 hmem
    omega
  have hnotRemoved : b ∉ t'.removed := fun hmem => by
    have hpos := count_pos_iff.2 hmem
    omega
  rcases hordered.effects heffects with hremoved | hremoved | hran | hqueue | ⟨-, hqueue⟩
  · exact .inl hremoved
  · exact absurd hremoved hnotRemoved
  · exact .inr hran
  · exact absurd (hqueue.subset (by simp)) hnotQueued
  · exact absurd hqueue hnotQueued

end

/-- The throttle holds what it promises in every run whose steps meet the condition. -/
theorem throttled_of_runs (product : ℚ → ℚ → ℚ) (t : Throttle)
    (ht : Runs (step product) (Meets product) (create product) t) :
      Throttled t ∧ InOrder product t := by
  obtain ⟨live, free, h, -⟩ := (whole_create product).runs ht
  exact ⟨h.throttled, h.inOrder⟩

/-- An action that the timer runs. -/
theorem throttled_of_runs_dispatched : ∃ t,
    [.dispatch 7 false, .enqueueBegin ⟨7, 0, false⟩, .enqueueEnd, .fire, .timerCB, .timerCB,
      .timerCB,
      .timerCB].foldlM (step (· * ·)) (create (· * ·)) = some t ∧
    t.ran = [0] ∧ t.callback.ran = 1 ∧ Throttled t ∧ InOrder (· * ·) t := by
  refine ⟨_, by with_unfolding_all rfl, by with_unfolding_all rfl, by with_unfolding_all rfl,
    throttled_of_runs (· * ·) _ ?_⟩
  have h₀ : Runs (step (· * ·)) (Meets (· * ·)) (create (· * ·)) (create (· * ·)) := Runs.init
  have h₁ := h₀.step (l := Label.dispatch 7 false) trivial (by with_unfolding_all rfl)
  have h₂ := h₁.step (l := Label.enqueueBegin ⟨7, 0, false⟩) trivial (by with_unfolding_all rfl)
  have h₃ := h₂.step (l := Label.enqueueEnd) trivial (by with_unfolding_all rfl)
  have h₄ := h₃.step (l := Label.fire) trivial (by with_unfolding_all rfl)
  have h₅ := h₄.step (l := Label.timerCB) (fun h => absurd h (by with_unfolding_all decide))
    (by with_unfolding_all rfl)
  have h₆ := h₅.step (l := Label.timerCB) (fun h => absurd h (by with_unfolding_all decide))
    (by with_unfolding_all rfl)
  have h₇ := h₆.step (l := Label.timerCB) (fun h => absurd h (by with_unfolding_all decide))
    (by with_unfolding_all rfl)
  exact h₇.step (l := Label.timerCB) (fun h => absurd h (by with_unfolding_all decide))
    (by with_unfolding_all rfl)

/-- A rate below one message per second leaves a callback without quota. -/
theorem not_throttled : ¬ ∀ t, Reachable (step (· * ·)) (create (· * ·)) t →
    Throttled t ∧ InOrder (· * ·) t := by
  intro h
  obtain ⟨t, hrun, hcallbacks⟩ : ∃ t, [.setRate (1 / 2), .dispatch 7 false,
      .enqueueBegin ⟨7, 0, false⟩, .enqueueEnd, .fire, .timerCB, .timerCB, .timerCB].foldlM
        (step (· * ·)) (create (· * ·)) = some t ∧
      ⟨0, 0, true, false⟩ ∈ t.callbacks := by
    refine ⟨_, by with_unfolding_all rfl, ?_⟩
    with_unfolding_all decide
  have hsound := (h t (Runs.init.steps (fun _ _ _ => trivial) hrun)).1.2.2.1 _ hcallbacks rfl
  exact absurd (hsound.2 rfl) (by simp)

/-- Two actions are pushed between the look at the size and the end of the timer, and the quota is
one: the second is left without a timer. -/
example :
  ([.setRate 1, .dispatch 7 false, .enqueueBegin ⟨7, 0, false⟩, .enqueueEnd, .fire, .timerCB,
    .timerCB, .timerCB, .timerCB, .timerCB, .timerCB, .fire, .timerCB, .timerCB, .dispatch 7 false,
    .enqueueBegin ⟨7, 1, false⟩, .enqueueEnd, .dispatch 7 false, .enqueueBegin ⟨7, 2, false⟩,
    .enqueueEnd, .timerCB, .timerCB, .timerCB, .timerCB, .timerCB].foldlM (step (· * ·))
      (create (· * ·))).map (fun t => (queue t, t.mTimer, t.phase)) = some ([2], false, .idle) := by
  with_unfolding_all rfl

end Mama.WombatThrottle
