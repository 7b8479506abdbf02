import OpenMama.Mamda.ListenerMessages
import OpenMama.Mamda.ListenerFrame

/-!
# Sequence numbers

A session keeps one counter, `eventSeqNum`, and writes the sequence number of
every message to it.  An update whose number does not follow the counter leaves
a gap; one whose number is the counter is ignored.

`SeqLaw` is what the counter is for: gaps are told from the last number that was
not zero, and nothing is forwarded from a gap on to the next recap or clear.  The
counter is that number only as long as no message without a number has come in
between, and a running timer forwards whatever it finds (`seqLaw_iff`).
-/

namespace Mamda

open Mama Lib List

/-! ## Numbers and senders of messages -/

/-- The sequence number of a message, zero if it carries none. -/
def seqNumOf (msg : BookMsg) : Nat :=
  msg.foldl (fun n f => match f with
    | .msgSeqNum m => m
    | _ => n) 0

def senderIdOf (msg : BookMsg) : Nat :=
  msg.foldl (fun n f => match f with
    | .senderId m => m
    | _ => n) 0

namespace BookMsgFields

theorem onLevelField_numbers (t : Bool) (f : BookMsgFields) (l : LevelField) :
    (f.onLevelField t l).msgSeqNum = f.msgSeqNum ∧ (f.onLevelField t l).senderId = f.senderId := by
  cases l with
  | entry e => cases t <;> cases e <;> exact ⟨rfl, rfl⟩
  | plNumAttach n => cases t <;> exact ⟨rfl, rfl⟩
  | plEntries es => cases t <;> exact ⟨rfl, rfl⟩
  | _ => exact ⟨rfl, rfl⟩

theorem msgSeqNum_foldl (t : Bool) (msg : BookMsg) (f : BookMsgFields) :
    (msg.foldl (onBookField t) f).msgSeqNum =
      msg.foldl (fun n f => match f with
        | .msgSeqNum m => m
        | _ => n) f.msgSeqNum := by
  refine (foldl_hom msgSeqNum fun f field => ?_).symm
  cases field with
  | level l => rw [onBookField, (onLevelField_numbers t f l).1]
  | _ => rfl

theorem senderId_foldl (t : Bool) (msg : BookMsg) (f : BookMsgFields) :
    (msg.foldl (onBookField t) f).senderId =
      msg.foldl (fun n f => match f with
        | .senderId m => m
        | _ => n) f.senderId := by
  refine (foldl_hom senderId fun f field => ?_).symm
  cases field with
  | level l => rw [onBookField, (onLevelField_numbers t f l).2]
  | _ => rfl

end BookMsgFields

namespace Listener

section

variable (x : Listener)

include x

section

variable (msg : BookMsg)

include msg

section

variable (isRecap : Bool)

include isRecap

theorem processBookMessage_seqNum :
    (x.processBookMessage msg isRecap).1.fields.msgSeqNum = seqNumOf msg := by
  unfold processBookMessage seqNumOf
  dsimp only
  split <;> exact BookMsgFields.msgSeqNum_foldl _ msg _

theorem processBookMessage_senderId :
    (x.processBookMessage msg isRecap).1.fields.senderId = senderIdOf msg := by
  unfold processBookMessage senderIdOf
  dsimp only
  split <;> exact BookMsgFields.senderId_foldl _ msg _

theorem processBookMessage_ignored :
    (x.processBookMessage msg isRecap).2 = (!isRecap && seqNumOf msg == x.eventSeqNum) := by
  rw [← x.processBookMessage_seqNum msg isRecap]
  rfl

theorem processBookMessage_control :
    (x.processBookMessage msg isRecap).1.eventSeqNum = seqNumOf msg ∧
      (x.processBookMessage msg isRecap).1.prevSenderId = senderIdOf msg ∧
      (x.processBookMessage msg isRecap).1.gotInitial = x.gotInitial := by
  refine ⟨?_, ?_, rfl⟩
  · rw [← x.processBookMessage_seqNum msg isRecap]; rfl
  · rw [← x.processBookMessage_senderId msg isRecap]; rfl

end

end

end

end Listener

namespace Session

theorem leavesGap_eq (x : Session) (msg : BookMsg) : x.leavesGap msg false ↔
    seqNumOf msg ≠ x.listener.eventSeqNum ∧ seqNumOf msg ≠ 0 ∧
    seqNumOf msg ≠ u32Inc x.listener.eventSeqNum := by
  unfold leavesGap
  dsimp only
  rw [Listener.processBookMessage_seqNum, Listener.processBookMessage_ignored]
  simp [and_assoc]

theorem isConsistent_update (x : Session) (msg : BookMsg) :
    (x.listener.processBookMessage msg false).1.isConsistent = if x.leavesGap msg false ∧
    senderIdOf msg = x.listener.prevSenderId then false else x.listener.isConsistent := by
  have hgap := x.leavesGap_eq msg
  have hseq := x.listener.processBookMessage_seqNum msg false
  have hsender := x.listener.processBookMessage_senderId msg false
  unfold Listener.processBookMessage at hseq hsender ⊢
  dsimp only at hseq hsender ⊢
  rw [hseq, hsender, if_neg (by simp)]
  by_cases hg : x.leavesGap msg false
  · obtain ⟨h₁, h₂, h₃⟩ := hgap.mp hg
    simp [hg, h₁, h₂, h₃]
  · have hno := mt hgap.mpr hg
    simp only [hg, Bool.false_eq_true, false_and, if_false]
    rw [if_neg]
    rintro ⟨⟨-, hig, h₂, h₃⟩, -⟩
    apply hno
    exact ⟨by simpa using hig, h₂, h₃⟩

end Session

/-! ## Runs of messages -/

/-- A book message of one of the three kinds that the session handles, or a firing of the timer. -/
inductive BookEvent
  | recap (msg : BookMsg)
  | clear (msg : BookMsg)
  | update (msg : BookMsg)
  /-- A message whose `BOOK_TYPE` does not convert. -/
  | unreadable (isUpdate : Bool) (msg : BookMsg)
  | timer

namespace BookEvent

def msg : BookEvent → BookMsg
  | .recap msg | .clear msg | .update msg | .unreadable _ msg => msg
  | .timer => []

def isUpdate : BookEvent → Bool
  | .update _ => true
  | .unreadable isUpdate _ => isUpdate
  | _ => false

def refreshes : BookEvent → Bool
  | .recap _ | .clear _ => true
  | _ => false

/-- Whether the numbers of the message are read. -/
def isRead : BookEvent → Bool
  | .recap _ | .clear _ | .update _ => true
  | _ => false

def seqNum (e : BookEvent) : Nat := seqNumOf e.msg

end BookEvent

/-- The sequence number of the latest message that was read. -/
def latestSeqNum (es : List BookEvent) : Nat :=
  es.foldl (fun n e => if e.isRead then e.seqNum else n) 0

/-- The last sequence number read that is not zero, zero if there is none. -/
def lastSeqNum (es : List BookEvent) : Nat :=
  es.foldl (fun last e => if e.isRead ∧ e.seqNum ≠ 0 then e.seqNum else last) 0

/-- Whether a gap is among what a message made the session do. -/
def reportsGap (acts : List Act) : Prop := ∃ b e, Act.invokeGapHandlers b e ∈ acts

instance (acts : List Act) : Decidable (reportsGap acts) :=
  decidable_of_iff (acts.any fun
    | .invokeGapHandlers _ _ => true
    | _ => false) (by
      rw [any_eq_true]
      constructor
      · rintro ⟨a, ha, hgap⟩
        cases a <;> first | exact ⟨_, _, ha⟩ | cases hgap
      · rintro ⟨b, e, ha⟩; exact ⟨_, ha, rfl⟩)

namespace Session

def handle (x : Session) : BookEvent → Option Result
  | .recap msg => x.handleRecap msg
  | .clear msg => some (x.handleClear msg)
  | .update msg => x.handleUpdate msg
  | .unreadable _ _ => some x.throwUnread
  | .timer => some (if x.conflationTimer then x.onTimer else (x, []))

/-- One event of a sequence; with the session goes whether a gap has been reported since the
latest recap or clear. -/
def followStep (r : Session × Bool) (e : BookEvent) : Option (Session × Bool) :=
  (r.1.handle e).map fun r' => (r'.1, !e.refreshes && (r.2 || decide (reportsGap r'.2)))

def follow (x : Session) (es : List BookEvent) : Option (Session × Bool) :=
  es.foldlM followStep (x, false)

theorem follow_concat (x : Session) (es : List BookEvent) (e : BookEvent) :
    x.follow (es ++ [e]) = (x.follow es).bind fun r => followStep r e := by
  rw [follow, foldlM_append]
  simp only [foldlM_cons, foldlM_nil, bind_pure]
  rfl

end Session

/-- What the sequence numbers are for.  `last` is the last number before the message that is not
zero, `gapSeen` says whether a gap has been reported since the latest recap or clear; the
event is `e`, it leaves `z` and does `acts`. -/
structure SeqLaw (last : Nat) (gapSeen : Bool) (e : BookEvent) (ignored : Bool) (z : Session)
    (acts : List Act) : Prop where
  gap_iff : reportsGap acts ↔
    e.isUpdate ∧ e.seqNum ≠ 0 ∧ e.seqNum ≠ last ∧ e.seqNum ≠ u32Inc last
  range : ∀ gapBegin gapEnd, .invokeGapHandlers gapBegin gapEnd ∈ acts →
    gapBegin = u32Inc last ∧ gapEnd = e.seqNum - 1
  ignored_only : ignored → e.seqNum ≠ 0 ∧ e.seqNum = last
  inconsistent : e.refreshes = false → gapSeen ∨ reportsGap acts →
    z.listener.isConsistent = false
  not_forwarded : e.refreshes = false → gapSeen ∨ reportsGap acts →
    z.updateInconsistentBook = false → .invokeDeltaHandlers ∉ acts ∧ .createTimer ∉ acts

variable {acts : List Act}
variable {e : BookEvent} {es : List BookEvent}

namespace Session

/-- `mIgnoreUpdate` after the message has been read. -/
def ignores (x : Session) : BookEvent → Bool
  | .update msg => (x.listener.processBookMessage msg false).2
  | _ => false

/-- Whether `onTimer` would invoke the delta handlers. -/
def timerForwards (x : Session) : Prop :=
  x.conflationTimer ∧ x.listener.deltas.currentDeltaCount ≠ 0 ∧
    (x.listener.deltas.currentDeltaCount = 1 ∨ x.listener.deltas.complexDelta.getSize ≠ 0)

instance (x : Session) : Decidable x.timerForwards := by
  unfold timerForwards
  infer_instance

/-- When the event that follows `es` is handled by the law. -/
def SeqMeets (x : Session) (es : List BookEvent) (gapSeen : Bool) : BookEvent → Prop
  | .update msg =>
    -- the counter is the last number that is not zero, or a 1 comes after a 1
    (latestSeqNum es = lastSeqNum es ∧ (seqNumOf msg ≠ 0 ∨ lastSeqNum es ≠ 0)) ∨
      (latestSeqNum es = 0 ∧ lastSeqNum es = 1 ∧ seqNumOf msg = 1)
  | .unreadable isUpdate msg =>
    isUpdate → seqNumOf msg = 0 ∨ seqNumOf msg = lastSeqNum es ∨
      seqNumOf msg = u32Inc (lastSeqNum es)
  | .timer => gapSeen → x.updateInconsistentBook = false → ¬ x.timerForwards
  | _ => True

instance (x : Session) (es : List BookEvent) (gapSeen : Bool) :
    ∀ e, Decidable (x.SeqMeets es gapSeen e)
  | .update _ => inferInstanceAs (Decidable (_ ∨ _))
  | .unreadable _ _ => inferInstanceAs (Decidable (_ → _))
  | .timer => inferInstanceAs (Decidable (_ → _))
  | .recap _ => .isTrue trivial
  | .clear _ => .isTrue trivial

section

variable (x : Session)

include x

theorem mem_processBookMessage (msg : BookMsg) (b e : Nat) :
    .invokeGapHandlers b e ∈ (x.processBookMessage msg false).2 ↔ x.leavesGap msg false ∧
    b = u32Inc x.listener.eventSeqNum ∧ e = u32Dec (seqNumOf msg) := by
  rw [← x.listener.processBookMessage_seqNum msg false]
  unfold processBookMessage
  split
  · next hgap => simp [hgap]
  · next hgap => simp [hgap]

theorem processBookMessage_recap (msg : BookMsg) :
    (x.processBookMessage msg true).2 = [] := rfl

theorem forwardUpdate_listener :
    x.forwardUpdate.1.listener.control = x.listener.control ∧
      x.forwardUpdate.1.updateInconsistentBook = x.updateInconsistentBook := by
  unfold forwardUpdate invokeDeltaHandlers
  dsimp only
  (repeat' split) <;> exact ⟨rfl, rfl⟩

theorem not_mem_forwardUpdate (b e : Nat) : .invokeGapHandlers b e ∉ x.forwardUpdate.2 := by
  unfold forwardUpdate invokeDeltaHandlers
  dsimp only
  (repeat' split) <;> simp

theorem setQuality_ok_listener : (x.setQuality .ok).1.listener = x.listener := by
  unfold setQuality
  split <;> rfl

end

variable {x z : Session}

theorem forwardUpdate_inconsistent (hc : x.listener.isConsistent = false)
    (hu : x.updateInconsistentBook = false) : x.forwardUpdate = (x, [.releaseLock]) := by
  rw [forwardUpdate, hc, hu, Bool.or_false, Bool.and_false, if_neg Bool.false_ne_true]

theorem control_applyUpdate {x l : Listener} {msg : BookMsg} (hi : x.gotInitial)
    (h : x.applyUpdate msg = some l) : l.control = (x.processBookMessage msg false).1.control := by
  unfold Listener.applyUpdate at h
  rw [if_pos hi] at h
  cases hp : x.processBookMessage msg false with
  | mk y ignored =>
    rw [hp] at h
    cases ignored with
    | true => cases h; rfl
    | false => exact Listener.control_of_caught h

structure UpdateSpec (x : Session) (msg : BookMsg) (z : Session) (acts : List Act) : Prop where
  gap : ∀ b e, .invokeGapHandlers b e ∈ acts ↔ x.leavesGap msg false ∧
    b = u32Inc x.listener.eventSeqNum ∧ e = u32Dec (seqNumOf msg)
  control : z.listener.control = (x.listener.processBookMessage msg false).1.control
  switches : z.updateInconsistentBook = x.updateInconsistentBook
  quiet : z.listener.isConsistent = false → z.updateInconsistentBook = false →
    .invokeDeltaHandlers ∉ acts ∧ .createTimer ∉ acts

theorem mem_gap_of_mem {msg : BookMsg} {b e : Nat} (hacts : .invokeGapHandlers b e ∉ acts) :
    .invokeGapHandlers b e ∈ [.acquireLock] ++ (x.processBookMessage msg false).2 ++ acts ↔
      .invokeGapHandlers b e ∈ (x.processBookMessage msg false).2 := by
  simp [hacts]

theorem not_mem_gap {msg : BookMsg} {a : Act} (hne : a ≠ .acquireLock)
    (hgap : ∀ b e, a ≠ .invokeGapHandlers b e) (ha : a ∉ acts) :
    a ∉ [.acquireLock] ++ (x.processBookMessage msg false).2 ++ acts := by
  unfold processBookMessage
  split <;> simp [hne, hgap, ha]

theorem handleUpdate_spec {msg : BookMsg} (hi : x.listener.gotInitial)
    (h : x.handleUpdate msg = some (z, acts)) : UpdateSpec x msg z acts := by
  rw [handleUpdate_eq hi] at h
  have hswitch := (processBookMessage_switches x msg false).2.2
  split at h
  · cases h
    refine ⟨?_, ?_, hswitch, ?_⟩
    · intro b e
      rw [mem_gap_of_mem (by simp)]
      exact x.mem_processBookMessage msg b e
    · rw [processBookMessage_listener]
    · intro _ _
      constructor <;> exact not_mem_gap (by simp) (by simp) (by simp)
  obtain ⟨l, hl, heq⟩ := Option.map_eq_some_iff.mp h
  cases heq
  have hcontrol := control_applyUpdate hi hl
  obtain ⟨hkept, hupd⟩ :=
    forwardUpdate_listener { (x.processBookMessage msg false).1 with listener := l }
  refine ⟨?_, hkept.trans hcontrol, hupd.trans hswitch, ?_⟩
  · intro b e
    rw [mem_gap_of_mem (not_mem_forwardUpdate _ b e)]
    exact x.mem_processBookMessage msg b e
  · intro hc hu
    have hcl : l.isConsistent = false := by
      rw [← hc]; exact (congrArg Control.isConsistent hkept).symm
    rw [hupd] at hu
    rw [forwardUpdate_inconsistent hcl hu]
    constructor <;> exact not_mem_gap (by simp) (by simp) (by simp)

/-- A firing of the timer or a message that is not read: the numbers and the consistency of the book
stay as they are. -/
structure RestSpec (x : Session) (forwards : Prop) (z : Session) (acts : List Act) : Prop where
  eventSeqNum : z.listener.eventSeqNum = x.listener.eventSeqNum
  prevSenderId : z.listener.prevSenderId = x.listener.prevSenderId
  gotInitial : z.listener.gotInitial = x.listener.gotInitial
  isConsistent : z.listener.isConsistent = x.listener.isConsistent
  updateInconsistentBook : z.updateInconsistentBook = x.updateInconsistentBook
  noGap : ¬ reportsGap acts
  noTimer : .createTimer ∉ acts
  forwards_iff : .invokeDeltaHandlers ∈ acts ↔ forwards

theorem onTimer_spec (htimer : x.conflationTimer) :
    RestSpec x x.timerForwards x.onTimer.1 x.onTimer.2 := by
  unfold timerForwards onTimer invokeDeltaHandlers
  by_cases hcount : x.listener.deltas.currentDeltaCount = 0
  · constructor <;> simp [hcount, reportsGap]
  · by_cases hdeltas : x.listener.deltas.currentDeltaCount = 1 ∨
        x.listener.deltas.complexDelta.getSize ≠ 0
    · constructor <;> simp [htimer, hcount, hdeltas, reportsGap, Listener.afterHandlers]
    · constructor <;> simp [hcount, hdeltas, reportsGap]

/-- What reads no message and does not refresh the book either. -/
theorem rest_spec (hread : e.isRead = false) (h : x.handle e = some (z, acts)) :
    RestSpec x (e = .timer ∧ x.timerForwards) z acts := by
  cases e with
  | recap | clear | update => cases hread
  | timer =>
    rw [handle] at h
    split at h
    · next htimer =>
      have hr : x.onTimer = (z, acts) := Option.some.inj h
      have hspec := onTimer_spec htimer
      rw [hr] at hspec
      simpa using hspec
    · next htimer =>
      cases h
      constructor <;> simp [reportsGap, timerForwards, htimer]
  | unreadable isUpdate msg =>
    cases h
    constructor <;> simp [reportsGap]

theorem handle_refresh (he : e.refreshes) (h : x.handle e = some (z, acts)) :
    z.listener.eventSeqNum = e.seqNum ∧ z.listener.prevSenderId = senderIdOf e.msg ∧
      z.listener.gotInitial ∧ ¬ reportsGap acts := by
  cases e with
  | update | unreadable | timer => cases he
  | clear msg =>
    have hacts : (x.handleClear msg).2 = acts := congrArg Prod.snd (Option.some.inj h)
    have hz : (x.handleClear msg).1 = z := congrArg Prod.fst (Option.some.inj h)
    obtain ⟨hseq, hsender, -⟩ := x.listener.processBookMessage_control msg true
    subst hacts hz
    refine ⟨hseq, hsender, rfl, ?_⟩
    rintro ⟨b, e, hmem⟩
    simp [handleClear, processBookMessage_recap] at hmem
  | recap msg =>
    obtain ⟨hseq, hsender, -⟩ := x.listener.processBookMessage_control msg true
    have hkeeps := (x.listener.processBookMessage msg true).1.createDelta_keeps
    unfold handle handleRecap at h
    dsimp only at h
    rw [processBookMessage_listener, processBookMessage_recap] at h
    split at h
    · next l hl =>
      rw [hl] at hkeeps
      have hseq' : l.eventSeqNum = seqNumOf msg := (congrArg Control.eventSeqNum hkeeps).trans hseq
      have hsender' : l.prevSenderId = senderIdOf msg :=
        (congrArg Control.prevSenderId hkeeps).trans hsender
      split at h
      · rw [setQuality_ok] at h
        cases h
        refine ⟨?_, ?_, ?_, ?_⟩
        · rwa [setQuality_ok_listener]
        · rwa [setQuality_ok_listener]
        · rw [setQuality_ok_listener]
        · rintro ⟨b, e, hmem⟩; simp at hmem
      · cases h
        refine ⟨hseq', hsender', rfl, ?_⟩
        rintro ⟨b, e, hmem⟩
        simp at hmem
    · next l hl =>
      rw [hl] at hkeeps
      cases h
      refine ⟨(congrArg Control.eventSeqNum hkeeps).trans hseq,
        (congrArg Control.prevSenderId hkeeps).trans hsender, rfl, ?_⟩
      rintro ⟨b, e, hmem⟩
      simp at hmem
    · cases h

/-! ## Whole runs -/

/-- A sequence that a session takes from its first message on: that is a recap or a clear. -/
def Opens (es : List BookEvent) : Prop := ∃ e rest, es = e :: rest ∧ e.refreshes

/-- The session after the events `es`, whose messages are of one sender. -/
structure Tracked (sender : Nat) (es : List BookEvent) (y : Session) (gapSeen : Bool) : Prop where
  counter : y.listener.eventSeqNum = latestSeqNum es
  sender : y.listener.prevSenderId = sender
  initial : y.listener.gotInitial
  gap : gapSeen → y.listener.isConsistent = false

theorem latestSeqNum_concat (es : List BookEvent) (e : BookEvent) :
    latestSeqNum (es ++ [e]) = if e.isRead then e.seqNum else latestSeqNum es := by
  simp [latestSeqNum]

theorem lastSeqNum_concat (es : List BookEvent) (e : BookEvent) :
    lastSeqNum (es ++ [e]) = if e.isRead ∧ e.seqNum ≠ 0 then e.seqNum else lastSeqNum es := by
  simp [lastSeqNum]

theorem latestSeqNum_cases (es : List BookEvent) :
    latestSeqNum es = 0 ∨ latestSeqNum es = lastSeqNum es := by
  induction es using List.reverseRecOn with
  | nil => exact .inl rfl
  | append_singleton es e ih =>
    rw [latestSeqNum_concat, lastSeqNum_concat]
    by_cases hread : e.isRead
    · by_cases hnum : e.seqNum = 0
      · left; rw [if_pos hread, hnum]
      · right; rw [if_pos hread, if_pos ⟨hread, hnum⟩]
    · rwa [if_neg hread, if_neg fun h => hread h.1]

theorem lastSeqNum_lt (h : ∀ e ∈ es, e.seqNum < 2 ^ 32) : lastSeqNum es < 2 ^ 32 := by
  induction es using List.reverseRecOn with
  | nil => decide
  | append_singleton es e ih =>
    rw [lastSeqNum_concat]
    split
    · exact h e (mem_append_right es (mem_singleton_self e))
    · exact ih fun e' he' => h e' (mem_append_left [e] he')

variable {gapSeen : Bool}

/-- The update of a tracked session: a gap of the same sender makes the book inconsistent, and
nothing but a recap or a clear makes it consistent again. -/
theorem UpdateSpec.isConsistent {msg : BookMsg} (h : UpdateSpec x msg z acts)
    (hsender : x.listener.prevSenderId = senderIdOf msg)
    (hgap : gapSeen → x.listener.isConsistent = false) (hseen : gapSeen ∨ reportsGap acts) :
    z.listener.isConsistent = false := by
  have hz : z.listener.isConsistent =
      (x.listener.processBookMessage msg false).1.isConsistent :=
    congrArg Control.isConsistent h.control
  rw [hz, isConsistent_update]
  split
  · rfl
  · next hno =>
    rcases hseen with hseen | ⟨b, e, hmem⟩
    · exact hgap hseen
    · exact absurd ⟨((h.gap b e).mp hmem).1, hsender.symm⟩ hno

theorem tracked_follow (x : Session) (sender : Nat) (es : List BookEvent) (hopens : Opens es)
    (hsender : ∀ e ∈ es, e.isRead → senderIdOf e.msg = sender) :
    ∀ y gapSeen, x.follow es = some (y, gapSeen) → Tracked sender es y gapSeen := by
  induction es using List.reverseRecOn with
  | nil =>
    obtain ⟨e, rest, h, -⟩ := hopens
    cases h
  | append_singleton es e ih =>
    intro z gapSeen hfollow
    rw [follow_concat] at hfollow
    obtain ⟨⟨y, g⟩, hy, hstep⟩ := Option.bind_eq_some_iff.mp hfollow
    obtain ⟨⟨z', acts⟩, hhandle, heq⟩ := Option.map_eq_some_iff.mp hstep
    cases heq
    have hse := hsender e (mem_append_right es (mem_singleton_self e))
    cases he : e.refreshes with
    | true =>
      obtain ⟨hseq, hprev, hinit, -⟩ := handle_refresh he hhandle
      have hread : e.isRead := by cases e <;> first | rfl | cases he
      exact ⟨by rw [latestSeqNum_concat, if_pos hread, hseq], by rw [hprev, hse hread], hinit,
        fun h => absurd h Bool.false_ne_true⟩
    | false =>
      -- this is not the first event, so the ones before it are tracked
      have htracked : Tracked sender es y g := by
        obtain ⟨first, rest, hsplit, hfirst⟩ := hopens
        cases es with
        | nil =>
          cases hsplit
          rw [hfirst] at he
          cases he
        | cons e' es' =>
          cases hsplit
          exact ih ⟨first, es', rfl, hfirst⟩
            (fun e' he' => hsender e' (mem_append_left [e] he')) y g hy
      cases hread : e.isRead with
      | false =>
        have hspec := rest_spec hread hhandle
        refine ⟨?_, hspec.prevSenderId.trans htracked.sender,
          hspec.gotInitial.trans htracked.initial, fun hseen => ?_⟩
        · rw [latestSeqNum_concat, hread, hspec.eventSeqNum]
          exact htracked.counter
        · rw [hspec.isConsistent]
          exact htracked.gap (by simpa [hspec.noGap] using hseen)
      | true =>
        obtain ⟨msg, rfl⟩ : ∃ msg, e = .update msg := by
          cases e with
          | update msg => exact ⟨msg, rfl⟩
          | recap | clear => cases he
          | unreadable | timer => cases hread
        have hspec := handleUpdate_spec htracked.initial hhandle
        obtain ⟨hseq, hprev, hinit⟩ := y.listener.processBookMessage_control msg false
        refine ⟨?_, ?_, ?_, ?_⟩
        · rw [latestSeqNum_concat]; exact (congrArg Control.eventSeqNum hspec.control).trans hseq
        · exact ((congrArg Control.prevSenderId hspec.control).trans hprev).trans (hse rfl)
        · exact ((congrArg Control.gotInitial hspec.control).trans hinit).trans htracked.initial
        · intro hseen
          refine hspec.isConsistent (htracked.sender.trans (hse rfl).symm) htracked.gap ?_
          simpa [Bool.or_eq_true] using hseen

theorem seqLaw_update_iff {counter last : Nat} {ignored : Bool} {msg : BookMsg}
    (hcases : counter = 0 ∨ counter = last) (hlast : last < 2 ^ 32) (hnum : seqNumOf msg < 2 ^ 32)
    (hgap : reportsGap acts ↔
      seqNumOf msg ≠ counter ∧ seqNumOf msg ≠ 0 ∧ seqNumOf msg ≠ u32Inc counter)
    (hrange : ∀ b e, .invokeGapHandlers b e ∈ acts → b = u32Inc counter ∧ e = u32Dec (seqNumOf msg))
    (hignores : ignored ↔ seqNumOf msg = counter)
    (hincon : gapSeen ∨ reportsGap acts → z.listener.isConsistent = false)
    (hquiet : gapSeen ∨ reportsGap acts → z.updateInconsistentBook = false →
      .invokeDeltaHandlers ∉ acts ∧ .createTimer ∉ acts) :
    SeqLaw last gapSeen (.update msg) ignored z acts ↔
      (counter = last ∧ (seqNumOf msg ≠ 0 ∨ last ≠ 0)) ∨
        (counter = 0 ∧ last = 1 ∧ seqNumOf msg = 1) := by
  have hone : u32Inc 0 = 1 := rfl
  have hinc : ∀ n, n < 2 ^ 32 → u32Inc n = 1 → n = 0 := by
    intro n hn h
    unfold u32Inc at h
    omega
  constructor
  · intro law
    have hgap_iff := law.gap_iff
    by_cases heq : counter = last
    · left
      refine ⟨heq, ?_⟩
      by_contra hzero
      push Not at hzero
      have hsame : seqNumOf msg = counter := by
        rw [heq, hzero.2]; exact hzero.1
      exact (law.ignored_only (hignores.mpr hsame)).1 hzero.1
    -- the counter is zero, so only a 1 passes for the next number
    have hlatest : counter = 0 := hcases.resolve_right heq
    have hpos : seqNumOf msg ≠ 0 := by
      intro h; exact (law.ignored_only (hignores.mpr (h.trans hlatest.symm))).1 h
    rw [hlatest] at hgap hrange
    right
    refine ⟨hlatest, ?_⟩
    by_cases hs : seqNumOf msg = 1
    · have hno : ¬ reportsGap acts := by
        rw [hgap]; exact fun h => h.2.2 hs
      have hlast1 : seqNumOf msg = last := by
        by_contra hne
        refine hno (hgap_iff.mpr ⟨rfl, hpos, hne, ?_⟩)
        intro h
        exact heq (hlatest.trans (hinc _ hlast (h.symm.trans hs)).symm)
      exact ⟨hlast1.symm.trans hs, hs⟩
    · obtain ⟨b, e', hmem⟩ := hgap.mpr ⟨hpos, hpos, hs⟩
      have hb := (hrange b e' hmem).1
      have hb' := (law.range b e' hmem).1
      exact absurd (hlatest.trans (hinc _ hlast (hb'.symm.trans hb)).symm) heq
  intro hcond
  have hdec : seqNumOf msg ≠ 0 → u32Dec (seqNumOf msg) = seqNumOf msg - 1 := by
    intro h
    unfold u32Dec
    omega
  rcases hcond with ⟨heq, hpos⟩ | ⟨hlatest, hlast1, hs⟩
  · rw [heq] at hgap hrange hignores
    refine ⟨?_, ?_, ?_, fun _ => hincon, fun _ => hquiet⟩
    · rw [hgap]
      constructor
      · rintro ⟨h₁, h₂, h₃⟩; exact ⟨rfl, h₂, h₁, h₃⟩
      · rintro ⟨-, h₂, h₁, h₃⟩; exact ⟨h₁, h₂, h₃⟩
    · intro b e' hmem
      have hne := (hgap.mp ⟨b, e', hmem⟩).2.1
      obtain ⟨hb, he'⟩ := hrange b e' hmem
      exact ⟨hb, he'.trans (hdec hne)⟩
    · intro hig
      have hsame := hignores.mp hig
      refine ⟨?_, hsame⟩
      rcases hpos with hpos | hpos
      · exact hpos
      · exact fun h => hpos (hsame.symm.trans h)
  rw [hlatest] at hgap hrange
  have hno : ¬ reportsGap acts := by
    rw [hgap]; exact fun h => h.2.2 hs
  refine ⟨⟨fun h => absurd h hno, ?_⟩, ?_, ?_, fun _ => hincon, fun _ => hquiet⟩
  · rintro ⟨-, -, hne, -⟩; exact absurd (hs.trans hlast1.symm) hne
  · intro b e' hmem; exact absurd ⟨b, e', hmem⟩ hno
  · intro hig; exact absurd (hs.symm.trans ((hignores.mp hig).trans hlatest)) Nat.one_ne_zero

/-- An event that reads no message: the law asks only that no gap goes unreported and nothing is
forwarded behind one. -/
theorem seqLaw_rest_iff (hread : e.isRead = false)
    (hgap : gapSeen → x.listener.isConsistent = false)
    (h : x.handle e = some (z, acts)) :
    SeqLaw (lastSeqNum es) gapSeen e (x.ignores e) z acts ↔ x.SeqMeets es gapSeen e := by
  have hspec := rest_spec hread h
  have hrange : ∀ b e', .invokeGapHandlers b e' ∉ acts := fun b e' hmem => hspec.noGap ⟨b, e', hmem⟩
  have hseen : gapSeen ∨ reportsGap acts → gapSeen := fun h => h.resolve_right hspec.noGap
  cases e with
  | recap | clear | update => cases hread
  | timer =>
    constructor
    · intro law hgapSeen hupdate hforwards
      have hupdate' := hspec.updateInconsistentBook.trans hupdate
      exact (law.not_forwarded rfl (.inl hgapSeen) hupdate').1
        (hspec.forwards_iff.mpr ⟨rfl, hforwards⟩)
    · intro hmeets
      refine ⟨⟨fun h => absurd h hspec.noGap, fun h => absurd h.1 Bool.false_ne_true⟩, ?_, ?_, ?_,
        ?_⟩
      · intro b e' hmem; exact absurd hmem (hrange b e')
      · intro hig; cases hig
      · intro _ h; exact hspec.isConsistent.trans (hgap (hseen h))
      · intro _ h hupdate
        refine ⟨fun hmem => ?_, hspec.noTimer⟩
        exact hmeets (hseen h) (hspec.updateInconsistentBook ▸ hupdate)
          (hspec.forwards_iff.mp hmem).2
  | unreadable isUpdate msg =>
    constructor
    · intro law hisUpdate
      by_contra hno
      push Not at hno
      exact hspec.noGap (law.gap_iff.mpr ⟨hisUpdate, hno⟩)
    · intro hmeets
      refine ⟨⟨fun h => absurd h hspec.noGap, ?_⟩, ?_, ?_, ?_, ?_⟩
      · rintro ⟨hisUpdate, hzero, hlast, hinc⟩
        rcases hmeets hisUpdate with h | h | h
        · exact absurd h hzero
        · exact absurd h hlast
        · exact absurd h hinc
      · intro b e' hmem; exact absurd hmem (hrange b e')
      · intro hig; cases hig
      · intro _ h; exact hspec.isConsistent.trans (hgap (hseen h))
      · intro _ _ _
        refine ⟨fun hmem => ?_, hspec.noTimer⟩
        cases (hspec.forwards_iff.mp hmem).1

/-- **Sequence numbers over whole runs.**  After any recaps, clears and updates of one sender, with
messages that are not read and firings of the timer among them, the next event is handled by the
law exactly when it meets the condition. -/
theorem seqLaw_iff (x : Session) (sender : Nat) (es : List BookEvent) (e : BookEvent)
    (hopens : Opens es) (hsender : ∀ e' ∈ e :: es, e'.isRead → senderIdOf e'.msg = sender)
    (hbound : ∀ e' ∈ e :: es, e'.seqNum < 2 ^ 32) (y z : Session) (gapSeen : Bool)
    (acts : List Act) (hy : x.follow es = some (y, gapSeen)) (hz : y.handle e = some (z, acts)) :
    SeqLaw (lastSeqNum es) gapSeen e (y.ignores e) z acts ↔ y.SeqMeets es gapSeen e := by
  have htracked := tracked_follow x sender es hopens
    (fun e' he' => hsender e' (mem_cons_of_mem e he')) y gapSeen hy
  have hlast : lastSeqNum es < 2 ^ 32 :=
    lastSeqNum_lt fun e' he' => hbound e' (mem_cons_of_mem e he')
  have hnum : e.seqNum < 2 ^ 32 := hbound e mem_cons_self
  have hse := hsender e mem_cons_self
  cases e with
  | timer | unreadable => exact seqLaw_rest_iff rfl htracked.gap hz
  | recap msg | clear msg =>
    obtain ⟨-, -, -, hno⟩ := handle_refresh rfl hz
    refine ⟨fun _ => trivial, fun _ => ?_⟩
    refine ⟨⟨fun h => absurd h hno, fun h => absurd h.1 Bool.false_ne_true⟩, ?_, ?_, ?_, ?_⟩
    · intro b e' hmem; exact absurd ⟨b, e', hmem⟩ hno
    · intro hig; cases hig
    · intro h; cases h
    · intro h; cases h
  | update msg =>
    have hspec := handleUpdate_spec htracked.initial hz
    have hgap : reportsGap acts ↔ seqNumOf msg ≠ latestSeqNum es ∧ seqNumOf msg ≠ 0 ∧
        seqNumOf msg ≠ u32Inc (latestSeqNum es) := by
      rw [← htracked.counter, ← leavesGap_eq]
      constructor
      · rintro ⟨b, e', hmem⟩; exact ((hspec.gap b e').mp hmem).1
      · intro h; exact ⟨_, _, (hspec.gap _ _).mpr ⟨h, rfl, rfl⟩⟩
    have hrange : ∀ b e', .invokeGapHandlers b e' ∈ acts →
        b = u32Inc (latestSeqNum es) ∧ e' = u32Dec (seqNumOf msg) := by
      intro b e' hmem
      have h := ((hspec.gap b e').mp hmem).2
      rwa [htracked.counter] at h
    have hignores : y.ignores (.update msg) ↔ seqNumOf msg = latestSeqNum es := by
      rw [ignores, Listener.processBookMessage_ignored, htracked.counter]
      simp
    have hincon := fun hseen =>
      hspec.isConsistent (htracked.sender.trans (hse rfl).symm) htracked.gap hseen
    have hquiet := fun hseen => hspec.quiet (hincon hseen)
    exact seqLaw_update_iff (latestSeqNum_cases es) hlast hnum hgap hrange hignores hincon hquiet

end Session

def plainSession : Session := .new (.new 0 (fun _ => true) 0)

theorem follow_some
    (h : ((plainSession.follow es).bind fun r => (r.1.handle e).map Prod.snd) = some acts) :
    ∃ y gapSeen z, plainSession.follow es = some (y, gapSeen) ∧ y.handle e = some (z, acts) := by
  obtain ⟨⟨y, gapSeen⟩, hy, hmap⟩ := Option.bind_eq_some_iff.mp h
  obtain ⟨⟨z, acts'⟩, hz, hacts⟩ := Option.map_eq_some_iff.mp hmap
  cases hacts
  exact ⟨y, gapSeen, z, hy, hz⟩

/-- A recap numbered 5 and the update numbered 6. -/
theorem seqLaw_six : ∃ y gapSeen z acts, plainSession.follow [.recap (emptyRecap 5)] =
      some (y, gapSeen) ∧ y.handle (.update (bidUpdate 6 10 5)) = some (z, acts) ∧
    SeqLaw 5 gapSeen (.update (bidUpdate 6 10 5)) (y.ignores (.update (bidUpdate 6 10 5))) z
      acts := by
  have hrun : ((plainSession.follow [.recap (emptyRecap 5)]).bind fun r =>
      (r.1.handle (.update (bidUpdate 6 10 5))).map Prod.snd) =
        some [.acquireLock, .invokeDeltaHandlers, .releaseLock] := by
    decide +kernel
  obtain ⟨y, gapSeen, z, hy, hz⟩ := follow_some hrun
  refine ⟨y, gapSeen, z, _, hy, hz, ?_⟩
  exact (Session.seqLaw_iff plainSession 0 _ _ ⟨_, _, rfl, rfl⟩ (by decide) (by decide) y z
    gapSeen _ hy hz).mpr (.inl (by decide))

/-- An update without a number makes the session forget the 5 of the recap: the update numbered 6
is then reported as a gap. -/
theorem seqLaw_forgets : ∃ y gapSeen z acts, plainSession.follow
      [.recap (emptyRecap 5), .update (bidUpdate 0 10 5)] = some (y, gapSeen) ∧
    y.handle (.update (bidUpdate 6 11 5)) = some (z, acts) ∧
    ¬ SeqLaw 5 gapSeen (.update (bidUpdate 6 11 5)) (y.ignores (.update (bidUpdate 6 11 5))) z
      acts := by
  have hrun : ((plainSession.follow [.recap (emptyRecap 5), .update (bidUpdate 0 10 5)]).bind
      fun r => (r.1.handle (.update (bidUpdate 6 11 5))).map Prod.snd) =
        some [.acquireLock, .invokeGapHandlers 1 5, .releaseLock] := by
    decide +kernel
  obtain ⟨y, gapSeen, z, hy, hz⟩ := follow_some hrun
  refine ⟨y, gapSeen, z, _, hy, hz, ?_⟩
  intro law
  obtain ⟨-, -, -, hnext⟩ := law.gap_iff.mp ⟨1, 5, by decide⟩
  exact hnext rfl

end Mamda
