import OpenMama.Lib.Unwinding
import OpenMama.Mama.GapFilling
import OpenMama.Mama.GroupSubscription

/-!
# What the symbols of a group do to each other

A run of a group subscription is compared, for one symbol, with the run that lacks the messages and
the recap timers of the other symbols.  They are seen alike (`independent_of_along`) where no other
symbol ends the wait for the initials, where the initial request's timer finds an image just if the
symbol has one of its own, and where a message of the symbol that looks at `mTryToFillGap`, with
something in its ring, finds what the messages of the symbol left there.
-/

namespace Mama.Group

open Function

open Dq (Transport Context Msg MsgType MsgStatus Act Error Subscription Looks Touches)

/-! ## What is done with a message -/

/-- The branches of `listenerMsgCallback_processMsg`. -/
inductive Handling
  | error (error : Error)
  | nothing
  | refresh
  | image
  | cache
  | check
  deriving DecidableEq

def Handling.isError : Handling → Bool
  | .error _ => true
  | _ => false

def Handling.isChecked : Handling → Bool
  | .image | .check => true
  | _ => false

def statusError : MsgStatus → Option Error
  | .notPermissioned => some .notPermissioned
  | .badSymbol => some .badSymbol
  | .expired => some .expired
  | .notFound => some .notFound
  | .timeout => some .timeout
  | .noSubscribers => some .noSubscribers
  | .bandwidthExceeded => some .bandwidthExceeded
  | _ => none

def typeHandling : MsgType → Handling
  | .refresh => .refresh
  | .delete => .error .delete
  | .expire => .error .expired
  | .notPermissioned => .error .notPermissioned
  | .notFound => .error .notFound
  | .unknown => .nothing
  | _ => .check

section

variable (setup : Setup) (s : Shared) (ctx : SubjectContext) (m : Msg)

def handling : Handling :=
  match statusError m.status with
  | some error => .error error
  | none =>
    if m.status = .unknown then .nothing
    else if Subscription.isInitialMessageOrRecap m.msgType then .image
    else if (view setup s ctx).caches m then .cache
    else typeHandling m.msgType

def Handling.result : Handling → Result
  | .error e => invokeErrorCallback s ctx e
  | .nothing => (s, ctx, [])
  | .refresh => (s, ctx, [.act .respondToRefresh])
  | .image => processPointToPointMessage setup s ctx m
  | .cache => cacheMsg setup s ctx m
  | .check => checkAndForward setup s ctx m

variable {s}

theorem setPossiblyStale_default (h : s.subjectContext.dqContext.dqState ≠ .ok) :
    setPossiblyStale s = (s, []) := by
  rw [setPossiblyStale, if_neg h]

theorem dispatch_eq : dispatch setup s ctx m = (typeHandling m.msgType).result setup s ctx m := by
  unfold dispatch
  cases m.msgType <;> rfl

theorem processType_eq : processType setup s ctx m =
    Handling.result setup s ctx m
      (if Subscription.isInitialMessageOrRecap m.msgType then .image
        else if (view setup s ctx).caches m then .cache
        else typeHandling m.msgType) := by
  rw [processType, dispatch_eq]
  split_ifs <;> rfl

/-- **`listenerMsgCallback_processMsg`** by its branches. -/
theorem processMsg_eq (h : s.subjectContext.dqContext.dqState ≠ .ok) :
    processMsg setup s ctx m = (handling setup s ctx m).result setup s ctx m := by
  have htype := processType_eq setup ctx m (s := s)
  rw [processMsg, handling, setPossiblyStale_default h]
  cases m.status <;> simp [htype] <;> rfl

/-! ## The values that a message leaves alone -/

variable {setup ctx m}

/-- What of the shared values does not count images and is not `mTryToFillGap`. -/
def Shared.frame (s : Shared) : Bool × Request × Bool × SubjectContext :=
  (s.expectingInitial, s.initialRequest, s.active, s.subjectContext)

theorem settle_frame (s : Shared) (ctx : SubjectContext) (x : Subscription) (acts : List Act) :
    (settle s ctx x acts).1.frame = s.frame := by
  unfold settle
  split <;> rfl

theorem result_frame {h : Handling} (herror : h.isError = false) :
    (h.result setup s ctx m).1.frame = s.frame := by
  cases h with
  | error e => cases herror
  | nothing => rfl
  | refresh => rfl
  | cache => rfl
  | check => exact settle_frame _ _ _ _
  | image =>
    refine (settle_frame _ _ _ _).trans ?_
    split <;> rfl

variable {q : Request}

theorem Request.stop_eq_self (hinbox : q.p2pListener = false)
    (hwaiting : q.waitingForResponse = false) (hrecap : q.isRecapRequest = false) : q.stop = q := by
  obtain ⟨p, w, n, i, t⟩ := q
  obtain rfl : p = false := hinbox
  obtain rfl : w = false := hwaiting
  obtain rfl : i = false := hrecap
  rfl

theorem result_error {h : Handling} (herror : h.isError) :
    (h.result setup s ctx m).1 =
      { s with expectingInitial := false, initialRequest := s.initialRequest.stop } := by
  cases h with
  | error e => rfl
  | _ => cases herror

def Request.SentAsRecap (q : Request) : Prop :=
  q.replyTimer → q.p2pListener = q.isRecapRequest

theorem Request.SentAsRecap.stop : q.stop.SentAsRecap := fun _ => rfl

variable {x : Subscription} {n : Nat}

theorem settle_sent {acts : List Act} (h : ctx.recapRequest.SentAsRecap) :
    (settle s ctx x acts).2.1.recapRequest.SentAsRecap := by
  unfold settle
  split
  · exact fun _ => rfl
  · exact h

theorem result_sent (h : Handling) (hsent : ctx.recapRequest.SentAsRecap) :
    (h.result setup s ctx m).2.1.recapRequest.SentAsRecap := by
  cases h with
  | error e => exact Request.SentAsRecap.stop
  | nothing => exact hsent
  | refresh => exact hsent
  | cache => exact hsent
  | check => exact settle_sent hsent
  | image => exact settle_sent hsent

/-! ## Image requests -/

structure Shared.Waits (s : Shared) : Prop where
  inbox : s.initialRequest.p2pListener = s.initialRequest.waitingForResponse
  initial : s.initialRequest.isRecapRequest = false
  notExpecting : s.initialRequest.waitingForResponse = false → s.expectingInitial = false
  unestablished : s.subjectContext.dqContext.dqState ≠ .ok

theorem Shared.Waits.of_frame {s' : Shared} (h : s.Waits) (hframe : s'.frame = s.frame) :
    s'.Waits := by
  injection hframe with hexpecting hframe
  injection hframe with hrequest hframe
  injection hframe with hactive hcontext
  obtain ⟨hinbox, hinitial, hover, hun⟩ := h
  rw [← hrequest] at hinbox hinitial hover
  rw [← hexpecting] at hover
  rw [← hcontext] at hun
  exact ⟨hinbox, hinitial, hover, hun⟩

theorem Shared.Waits.stop (h : s.Waits) (hover : s.initialRequest.waitingForResponse = false) :
    { s with expectingInitial := false, initialRequest := s.initialRequest.stop } = s := by
  obtain ⟨hinbox, hinitial, hexpecting, -⟩ := h
  rw [Request.stop_eq_self (hinbox.trans hover) hover hinitial, ← hexpecting hover]

theorem processTimeout_congr {s' : Shared}
    (hcount : q.p2pListener → q.isRecapRequest = false → (0 < s.initialCount ↔ 0 < s'.initialCount))
    (hexpecting : s'.expectingInitial = s.expectingInitial) (hactive : s'.active = s.active) :
    ∃ expecting active r,
      processTimeout setup s q n =
        ({ s with expectingInitial := expecting, active := active }, r) ∧
      processTimeout setup s' q n =
        ({ s' with expectingInitial := expecting, active := active }, r) := by
  have hself : ∀ r : Request × List Report,
      ((s, r) : Shared × Request × List Report) =
        ({ s with expectingInitial := s.expectingInitial, active := s.active }, r) ∧
      ((s', r) : Shared × Request × List Report) =
        ({ s' with expectingInitial := s.expectingInitial, active := s.active }, r) := by
    intro r
    rw [← hexpecting, ← hactive]
    exact ⟨rfl, rfl⟩
  have hstopped : ∀ r : Request × List Report,
      (({ s with expectingInitial := false }, r) : Shared × Request × List Report) =
        ({ s with expectingInitial := false, active := s.active }, r) ∧
      (({ s' with expectingInitial := false }, r) : Shared × Request × List Report) =
        ({ s' with expectingInitial := false, active := s.active }, r) := by
    intro r
    rw [← hactive]
    exact ⟨rfl, rfl⟩
  unfold processTimeout
  by_cases hinbox : q.p2pListener = false
  · rw [if_pos hinbox, if_pos hinbox]; exact ⟨_, _, _, hself _⟩
  rw [if_neg hinbox, if_neg hinbox]
  have hfound : 0 < (if q.isRecapRequest then n else s.initialCount) ↔
      0 < (if q.isRecapRequest then n else s'.initialCount) := by
    cases hrecap : q.isRecapRequest with
    | true => rfl
    | false => exact hcount (Bool.not_eq_false _ ▸ hinbox) hrecap
  by_cases hone : 0 < (if q.isRecapRequest then n else s.initialCount)
  · rw [if_pos hone, if_pos (hfound.1 hone)]
    by_cases hrecap : q.isRecapRequest
    · rw [if_pos hrecap, if_pos hrecap]; exact ⟨_, _, _, hstopped _⟩
    · rw [if_neg hrecap, if_neg hrecap]
      by_cases hupdates : setup.expectsUpdates
      · rw [if_pos hupdates, if_pos hupdates]; exact ⟨_, _, _, hstopped _⟩
      · rw [if_neg hupdates, if_neg hupdates]; exact ⟨_, _, _, rfl, rfl⟩
  rw [if_neg hone, if_neg fun h => hone (hfound.2 h)]
  by_cases hretry : q.reqCount < setup.retries
  · rw [if_pos hretry, if_pos hretry]
    by_cases hwaiting : q.waitingForResponse
    · rw [if_pos hwaiting, if_pos hwaiting]; exact ⟨_, _, _, hself _⟩
    · rw [if_neg hwaiting, if_neg hwaiting]; exact ⟨_, _, _, hself _⟩
  · rw [if_neg hretry, if_neg hretry]
    by_cases hrecap : q.isRecapRequest
    · rw [if_pos hrecap, if_pos hrecap]; exact ⟨_, _, _, hstopped _⟩
    · rw [if_neg hrecap, if_neg hrecap]; exact ⟨_, _, _, rfl, rfl⟩

/-- The timeout of a request ends the wait for its response. -/
def Request.Ends (setup : Setup) (q : Request) (imageCount : Nat) : Prop :=
  q.p2pListener ∧ (0 < imageCount ∨ setup.retries ≤ q.reqCount)

instance (q : Request) (imageCount : Nat) : Decidable (q.Ends setup imageCount) :=
  inferInstanceAs (Decidable (_ ∧ _))

theorem processTimeout_recap (hsent : q.p2pListener = q.isRecapRequest) :
    (processTimeout setup s q n).1 =
        (if q.Ends setup n then { s with expectingInitial := false } else s) ∧
      (processTimeout setup s q n).2.1.SentAsRecap := by
  unfold processTimeout
  by_cases hinbox : q.p2pListener = false
  · rw [if_pos hinbox, if_neg fun h => Bool.false_ne_true (hinbox.symm.trans h.1)]
    exact ⟨rfl, fun _ => hsent⟩
  have hopen : q.p2pListener := Bool.not_eq_false _ ▸ hinbox
  have hrecap : q.isRecapRequest := hsent.symm.trans hopen
  rw [if_neg hinbox]
  simp only [hrecap, if_true]
  by_cases hfound : 0 < n
  · rw [if_pos hfound, if_pos ⟨hopen, .inl hfound⟩]; exact ⟨rfl, fun _ => rfl⟩
  rw [if_neg hfound]
  by_cases hretry : q.reqCount < setup.retries
  · have hgoes : ¬ q.Ends setup n := fun h => h.2.elim hfound (by omega)
    rw [if_pos hretry]
    split
    · exact ⟨rfl, fun _ => hopen⟩
    · exact ⟨rfl, fun _ => hopen⟩
  · rw [if_neg hretry, if_pos ⟨hopen, .inr (by omega)⟩]; exact ⟨rfl, fun _ => rfl⟩

theorem processTimeout_fired (htimer : q.replyTimer) (hsent : q.SentAsRecap) :
    (processTimeout setup s { q with replyTimer := false } n).1 =
        (if q.Ends setup n then { s with expectingInitial := false } else s) ∧
      (processTimeout setup s { q with replyTimer := false } n).2.1.SentAsRecap :=
  processTimeout_recap (hsent htimer)

theorem Shared.Waits.timeout (h : s.Waits) (n : Nat) :
    { (processTimeout setup s { s.initialRequest with replyTimer := false } n).1 with
      initialRequest :=
        (processTimeout setup s { s.initialRequest with replyTimer := false } n).2.1 }.Waits := by
  obtain ⟨hinbox, hinitial, hover, hun⟩ := h
  unfold processTimeout
  dsimp only
  rw [hinitial]
  split_ifs
  · exact ⟨hinbox, rfl, hover, hun⟩
  all_goals first
    | exact ⟨rfl, rfl, fun _ => rfl, hun⟩
    | exact ⟨hinbox, rfl, hover, hun⟩

/-! ## One message in two runs -/

variable {s' : Shared}

theorem view_withFlag (h : s'.expectingInitial = s.expectingInitial) :
    view setup s' ctx = (view setup s ctx).withFlag s'.tryToFillGap := by
  rw [view, h]
  rfl

theorem handling_congr (h : s'.expectingInitial = s.expectingInitial) :
    handling setup s' ctx m = handling setup s ctx m := by
  rw [handling, view_withFlag h]
  rfl

theorem settle_congr (acts : List Act) (f : Bool) (hframe : s'.frame = s.frame)
    (hcount : s'.initialCount = x.imageCount) :
    (settle s' ctx (x.withFlag f) acts).2 = (settle s ctx x acts).2 ∧
      (settle s' ctx (x.withFlag f) acts).1.frame = (settle s ctx x acts).1.frame ∧
      (settle s' ctx (x.withFlag f) acts).1.initialCount =
        (settle s' ctx (x.withFlag f) acts).2.1.imageCount ∧
      (settle s' ctx (x.withFlag f) acts).1.tryToFillGap = f := by
  refine ⟨?_, (settle_frame _ _ _ _).trans (hframe.trans (settle_frame _ _ _ _).symm), ?_, ?_⟩
  · unfold settle
    split <;> rfl
  · unfold settle
    split
    · rfl
    · exact hcount
  · unfold settle
    split <;> rfl

theorem settle_flag (x : Subscription) (acts : List Act) :
    (settle s ctx x acts).1.tryToFillGap = x.dq.tryToFillGap := by
  unfold settle
  split <;> rfl

/-- **One message in two runs.**  The shared values differ in the count of images and in the flag,
and the message does not look at the flag where they do. -/
theorem result_congr (h : Handling) (hframe : s'.frame = s.frame)
    (hcount : s'.initialCount = ctx.imageCount)
    (hlooks : h.isChecked → Looks setup.transport ctx.dqContext m →
      s'.tryToFillGap = s.tryToFillGap) :
    (h.result setup s' ctx m).2 = (h.result setup s ctx m).2 ∧
      (h.result setup s' ctx m).1.frame = (h.result setup s ctx m).1.frame ∧
      (h.result setup s' ctx m).1.initialCount = (h.result setup s' ctx m).2.1.imageCount ∧
      (h.result setup s' ctx m).1.tryToFillGap =
        if h.isChecked ∧ Touches setup.transport ctx.dqContext m then
          (h.result setup s ctx m).1.tryToFillGap
        else s'.tryToFillGap := by
  have hexpecting : s'.expectingInitial = s.expectingInitial := congrArg Prod.fst hframe
  have hview : view setup s' ctx = (view setup s ctx).withFlag s'.tryToFillGap :=
    view_withFlag hexpecting
  cases h with
  | error e =>
    injection hframe with _ hframe
    injection hframe with hrequest hframe
    injection hframe with hactive hcontext
    refine ⟨rfl, ?_, hcount, by simp [Handling.isChecked, Handling.result, invokeErrorCallback,
      stopWaitForResponse]⟩
    show (false, s'.initialRequest.stop, s'.active, s'.subjectContext) =
      (false, s.initialRequest.stop, s.active, s.subjectContext)
    rw [hrequest, hactive, hcontext]
  | nothing => exact ⟨rfl, hframe, hcount, by simp [Handling.isChecked, Handling.result]⟩
  | refresh => exact ⟨rfl, hframe, hcount, by simp [Handling.isChecked, Handling.result]⟩
  | cache =>
    refine ⟨?_, hframe, hcount, by simp [Handling.isChecked, Handling.result, cacheMsg]⟩; rfl
  | check =>
    have hcheck := Subscription.checkAndForward_withFlag (x := view setup s ctx) (m := m) rfl
      (hlooks rfl)
    have hone : s'.initialCount = ((view setup s ctx).checkAndForward m).1.imageCount :=
      hcount.trans ((view setup s ctx).checkAndForward_imageCount m).symm
    rw [← hview] at hcheck
    dsimp only [Handling.result, checkAndForward]
    rw [hcheck]
    obtain ⟨hrest, hkept, hcounted, hflag⟩ := settle_congr _ _ hframe hone
    refine ⟨hrest, hkept, hcounted, hflag.trans ?_⟩
    rw [settle_flag]
    simp only [Handling.isChecked, true_and]
    rfl
  | image =>
    have himage := Subscription.processPointToPointMessage_withFlag (x := view setup s ctx) (m := m)
      rfl rfl (hlooks rfl)
    have hone : (if m.msgTotal = 0 ∨ m.msgNum = m.msgTotal then
        { s' with initialCount := s'.initialCount + 1 } else s').initialCount =
          ((view setup s ctx).processPointToPointMessage m).1.imageCount := by
      rw [Subscription.processPointToPointMessage_imageCount rfl]
      split
      · exact congrArg (· + 1) hcount
      · exact hcount
    have hpart : (if m.msgTotal = 0 ∨ m.msgNum = m.msgTotal then
        { s' with initialCount := s'.initialCount + 1 } else s').frame =
          (if m.msgTotal = 0 ∨ m.msgNum = m.msgTotal then
            { s with initialCount := s.initialCount + 1 } else s).frame := by
      split <;> exact hframe
    rw [← hview] at himage
    dsimp only [Handling.result, processPointToPointMessage]
    rw [himage]
    obtain ⟨hrest, hkept, hcounted, hflag⟩ := settle_congr _ _ hpart hone
    refine ⟨hrest, hkept, hcounted, hflag.trans ?_⟩
    rw [settle_flag]
    simp only [Handling.isChecked, true_and]
    rfl

end

/-! ## What is compared -/

section

variable {σ : Type} [DecidableEq σ] (setup : Setup) (b : σ)

/-- The event is about the symbol, or about the whole group. -/
def concerns : Event σ → Bool
  | .message a _ _ => decide (a = b)
  | .initialTimeout => true
  | .recapTimeout a => decide (a = b)

def seenBy (g : GroupSubscription σ) (es : List (Event σ)) : List (List Report) :=
  Lib.transcript (step setup) (reports setup) (concerns b) g es

def wait (g : GroupSubscription σ) : Bool × Request :=
  (g.shared.expectingInitial, g.shared.initialRequest)

/-- A symbol, and the wait for the initials, fare in a run as in the run that lacks the messages and
the recap timers of the other symbols. -/
def Independent (es : List (Event σ)) : Prop :=
  seenBy setup b (start setup) es = seenBy setup b (start setup) (es.filter (concerns b)) ∧
    wait (run setup (start setup) es) = wait (run setup (start setup) (es.filter (concerns b)))

instance (es : List (Event σ)) : Decidable (Independent setup b es) :=
  inferInstanceAs (Decidable (_ ∧ _))

/-! ## The condition -/

/-- A group, and `mTryToFillGap` as the messages of one symbol left it. -/
structure Watched (σ : Type) where
  group : GroupSubscription σ
  filling : Bool

variable (w : Watched σ)

/-- The message gets through and has its number checked. -/
def Checks (g : GroupSubscription σ) (a : σ) (via : Via) (m : Msg) : Bool :=
  arrives g.shared (getSubjectContext setup g a) via &&
    (handling setup g.shared (getSubjectContext setup g a) m).isChecked

def Watched.step : Event σ → Watched σ
  | .message a via m =>
    { group := Group.step setup w.group (.message a via m)
      filling :=
        if a = b ∧ Checks setup w.group a via m ∧
            Touches setup.transport (getSubjectContext setup w.group a).dqContext m then
          (Group.step setup w.group (.message a via m)).shared.tryToFillGap
        else w.filling }
  | e => { group := Group.step setup w.group e, filling := w.filling }

/-- An event of another symbol leaves the wait for the initials as it is: no message of it is an
error, and no timer ends its recap request, unless there is nothing left to end. -/
def Spares (g : GroupSubscription σ) : Event σ → Prop
  | .message a via m =>
    arrives g.shared (getSubjectContext setup g a) via →
      (handling setup g.shared (getSubjectContext setup g a) m).isError →
        g.shared.initialRequest.waitingForResponse = false
  | .initialTimeout => True
  | .recapTimeout a =>
    (getSubjectContext setup g a).recapRequest.replyTimer →
      (getSubjectContext setup g a).recapRequest.Ends setup
        (getSubjectContext setup g a).imageCount →
          g.shared.expectingInitial = false

/-- An event of the symbol, or of the group, finds what the symbol alone would have left: the
message that looks at `mTryToFillGap` finds it as the messages of the symbol left it, and the timer
of the initial request finds an image just if the symbol has one. -/
def Finds : Event σ → Prop
  | .message a via m =>
    Checks setup w.group a via m →
      Looks setup.transport (getSubjectContext setup w.group a).dqContext m →
        w.filling = w.group.shared.tryToFillGap
  | .initialTimeout =>
    w.group.shared.initialRequest.replyTimer →
      w.group.shared.initialRequest.p2pListener →
        (0 < w.group.shared.initialCount ↔ 0 < (getSubjectContext setup w.group b).imageCount)
  | .recapTimeout _ => True

def Meets (e : Event σ) : Prop :=
  if concerns b e then Finds setup b w e else Spares setup w.group e

instance (g : GroupSubscription σ) (e : Event σ) : Decidable (Spares setup g e) :=
  match e with
  | .message _ _ _ => inferInstanceAs (Decidable (_ → _ → _))
  | .initialTimeout => isTrue trivial
  | .recapTimeout _ => inferInstanceAs (Decidable (_ → _ → _))

instance (e : Event σ) : Decidable (Finds setup b w e) :=
  match e with
  | .message _ _ _ => inferInstanceAs (Decidable (_ → _ → _))
  | .initialTimeout => inferInstanceAs (Decidable (_ → _ → _))
  | .recapTimeout _ => isTrue trivial

instance (e : Event σ) : Decidable (Meets setup b w e) :=
  inferInstanceAs (Decidable (ite _ _ _))

end

/-! ## One event -/

section

variable {σ : Type} [DecidableEq σ] {setup : Setup} {g : GroupSubscription σ} {a b : σ}

theorem getSubjectContext_update (s : Shared) (ctx : SubjectContext) (c : σ) :
    getSubjectContext setup { shared := s, subjects := Function.update g.subjects a (some ctx) } c =
      if c = a then ctx else getSubjectContext setup g c := by
  unfold getSubjectContext
  dsimp only
  by_cases h : c = a
  · rw [if_pos h, h, update_self]; rfl
  · rw [if_neg h, update_of_ne h]

variable {via : Via}

theorem handle_lost {m : Msg} (h : arrives g.shared (getSubjectContext setup g a) via = false) :
    handle setup g (.message a via m) = (g, []) := by
  unfold handle
  dsimp only
  rw [h, if_neg Bool.false_ne_true]

theorem handle_message {m : Msg} (hg : g.shared.Waits)
    (h : arrives g.shared (getSubjectContext setup g a) via) : handle setup g (.message a via m) =
      let r := (handling setup g.shared (getSubjectContext setup g a) m).result setup g.shared
        (getSubjectContext setup g a) m
      ({ shared := r.1, subjects := Function.update g.subjects a (some r.2.1) }, r.2.2) := by
  unfold handle
  dsimp only
  rw [if_pos h, processMsg_eq _ _ _ hg.unestablished]

structure Sound (setup : Setup) (g : GroupSubscription σ) : Prop where
  waits : g.shared.Waits
  recaps : ∀ a, (getSubjectContext setup g a).recapRequest.SentAsRecap

omit [DecidableEq σ] in
theorem sound_start : Sound setup (start setup : GroupSubscription σ) where
  waits := ⟨rfl, rfl, fun h => Bool.noConfusion h, fun h => nomatch h⟩
  recaps _ h := (Bool.false_ne_true h).elim

theorem Shared.Waits.result {s : Shared} {ctx : SubjectContext} {m : Msg} (h : s.Waits)
    (x : Handling) : (x.result setup s ctx m).1.Waits := by
  cases hx : x.isError with
  | false => exact h.of_frame (result_frame hx)
  | true => rw [result_error hx]; exact ⟨rfl, rfl, fun _ => rfl, h.unestablished⟩

/-- **Step lemma.** -/
theorem Sound.step (h : Sound setup g) (e : Event σ) : Sound setup (Group.step setup g e) := by
  obtain ⟨hwaits, hrecaps⟩ := h
  unfold Group.step
  cases e with
  | message a via m =>
    cases harrives : arrives g.shared (getSubjectContext setup g a) via with
    | false => rw [handle_lost harrives]; exact ⟨hwaits, hrecaps⟩
    | true =>
      rw [handle_message hwaits harrives]
      refine ⟨hwaits.result _, fun c => ?_⟩
      rw [getSubjectContext_update]
      split
      · exact result_sent _ (hrecaps a)
      · exact hrecaps c
  | initialTimeout =>
    unfold handle
    dsimp only
    split
    · exact ⟨hwaits.timeout _, hrecaps⟩
    · exact ⟨hwaits, hrecaps⟩
  | recapTimeout a =>
    unfold handle
    dsimp only
    split
    · rename_i htimer
      obtain ⟨hshared, hsent⟩ := @processTimeout_fired setup g.shared
        (getSubjectContext setup g a).recapRequest (getSubjectContext setup g a).imageCount htimer
        (hrecaps a)
      refine ⟨?_, fun c => ?_⟩
      · dsimp only
        rw [hshared]
        split
        · exact ⟨hwaits.inbox, hwaits.initial, fun _ => rfl, hwaits.unestablished⟩
        · exact hwaits
      · dsimp only
        rw [getSubjectContext_update]
        split
        · exact hsent
        · exact hrecaps c
    · exact ⟨hwaits, hrecaps⟩

/-! ## An event of another symbol -/

theorem frame_eq_iff {s s' : Shared} : s'.frame = s.frame ↔
    (s'.expectingInitial, s'.initialRequest) = (s.expectingInitial, s.initialRequest) ∧
      s'.active = s.active ∧ s'.subjectContext = s.subjectContext := by
  unfold Shared.frame
  simp [and_assoc]

variable {e : Event σ}

/-- An event of another symbol does not touch the context of this one, and it leaves the shared
values alone, but for the count and the flag, just if it spares the wait for the initials. -/
theorem step_other (hg : Sound setup g) (he : concerns b e = false) :
    (Group.step setup g e).subjects b = g.subjects b ∧
      (Group.step setup g e).shared.active = g.shared.active ∧
      (Group.step setup g e).shared.subjectContext = g.shared.subjectContext ∧
      (wait (Group.step setup g e) = wait g ↔ Spares setup g e) := by
  obtain ⟨hwaits, hrecaps⟩ := hg
  unfold Group.step
  cases e with
  | initialTimeout => cases he
  | message a via m =>
    have hab : b ≠ a := fun h => of_decide_eq_false he h.symm
    cases harrives : arrives g.shared (getSubjectContext setup g a) via with
    | false =>
      rw [handle_lost harrives]
      refine ⟨rfl, rfl, rfl, iff_of_true rfl fun h => ?_⟩
      rw [harrives] at h
      cases h
    | true =>
      rw [handle_message hwaits harrives]
      dsimp only
      cases herror : (handling setup g.shared (getSubjectContext setup g a) m).isError with
      | false =>
        obtain ⟨hwait, hactive, hcontext⟩ := frame_eq_iff.1
          (@result_frame setup g.shared (getSubjectContext setup g a) m _ herror)
        refine ⟨update_of_ne hab _ _, hactive, hcontext, iff_of_true hwait fun _ h => ?_⟩
        rw [herror] at h
        cases h
      | true =>
        rw [result_error herror]
        refine ⟨update_of_ne hab _ _, rfl, rfl, fun hwait _ _ => ?_, fun hspares => ?_⟩
        · injection hwait with _ hstop
          exact (congrArg Request.waitingForResponse hstop).symm
        · rw [hwaits.stop (hspares harrives herror)]; rfl
  | recapTimeout a =>
    have hab : b ≠ a := fun h => of_decide_eq_false he h.symm
    unfold handle
    dsimp only
    split
    · rename_i htimer
      obtain ⟨hshared, -⟩ := @processTimeout_fired setup g.shared
        (getSubjectContext setup g a).recapRequest (getSubjectContext setup g a).imageCount htimer
        (hrecaps a)
      rw [hshared]
      by_cases hends : (getSubjectContext setup g a).recapRequest.Ends setup
          (getSubjectContext setup g a).imageCount
      · rw [if_pos hends]
        refine ⟨update_of_ne hab _ _, rfl, rfl, fun hwait _ _ => ?_, fun hspares => ?_⟩
        · injection hwait with hexpecting
          exact hexpecting.symm
        · show (false, g.shared.initialRequest) = (g.shared.expectingInitial, _)
          rw [hspares htimer hends]
      · rw [if_neg hends]
        exact ⟨update_of_ne hab _ _, rfl, rfl,
          iff_of_true rfl fun _ h => absurd h hends⟩
    · rename_i htimer
      exact ⟨rfl, rfl, rfl, iff_of_true rfl fun h => absurd h htimer⟩

/-! ## Two runs -/

/-- A group that got the events of one symbol only, beside the group that got all. -/
structure Follows (setup : Setup) (b : σ) (w : Watched σ) (h : GroupSubscription σ) : Prop where
  sound : Sound setup w.group
  frame : h.shared.frame = w.group.shared.frame
  subject : h.subjects b = w.group.subjects b
  counted : h.shared.initialCount = (getSubjectContext setup w.group b).imageCount
  filling : h.shared.tryToFillGap = w.filling

variable {w : Watched σ} {h : GroupSubscription σ}

theorem Watched.step_message (via : Via) (m : Msg) : w.step setup b (.message a via m) =
    { group := Group.step setup w.group (.message a via m)
      filling :=
        if a = b ∧ Checks setup w.group a via m ∧
            Touches setup.transport (getSubjectContext setup w.group a).dqContext m then
          (Group.step setup w.group (.message a via m)).shared.tryToFillGap
        else w.filling } := rfl

omit [DecidableEq σ] in
theorem getSubjectContext_congr {g' : GroupSubscription σ}
    (hsubject : g'.subjects b = g.subjects b) :
    getSubjectContext setup g' b = getSubjectContext setup g b := by
  unfold getSubjectContext
  rw [hsubject]

theorem arrives_congr {s s' : Shared} (hframe : s'.frame = s.frame) (ctx : SubjectContext)
    (via : Via) : arrives s' ctx via = arrives s ctx via := by
  injection hframe with _ hframe
  injection hframe with hrequest hframe
  injection hframe with hactive _
  unfold arrives
  rw [hrequest, hactive]

section

variable (hf : Follows setup b w h)

include hf

theorem Follows.drop (hmeets : Meets setup b w e)
    (he : concerns b e = false) : Follows setup b (w.step setup b e) h := by
  obtain ⟨hsound, hframe, hsubject, hcounted, hfilling⟩ := hf
  have hspares : Spares setup w.group e := by
    unfold Meets at hmeets; rwa [he, if_neg Bool.false_ne_true] at hmeets
  obtain ⟨hkept, hactive, hcontext, hwait⟩ := step_other hsound he
  have hgroup : (w.step setup b e).group = Group.step setup w.group e := by
    cases e <;> rfl
  have hother : (w.step setup b e).filling = w.filling := by
    cases e with
    | message a via m => exact if_neg fun hab => of_decide_eq_false he hab.1
    | _ => rfl
  constructor
  · rw [hgroup]; exact hsound.step e
  · rw [hgroup]; exact hframe.trans (frame_eq_iff.2 ⟨hwait.2 hspares, hactive, hcontext⟩).symm
  · rwa [hgroup, hkept]
  · rwa [hgroup, getSubjectContext_congr hkept]
  · rwa [hother]

/-- Both groups handle an event alike. -/
theorem Follows.of_handle {g g' : GroupSubscription σ} {rs : List Report} {filling : Bool}
    (hw : w.step setup b e = ⟨Group.step setup w.group e, filling⟩)
    (hstep : handle setup w.group e = (g, rs)) (hstep' : handle setup h e = (g', rs))
    (hframe : g'.shared.frame = g.shared.frame) (hsubject : g'.subjects b = g.subjects b)
    (hcounted : g'.shared.initialCount = (getSubjectContext setup g b).imageCount)
    (hfilling : g'.shared.tryToFillGap = filling) :
    Follows setup b (w.step setup b e) (Group.step setup h e) ∧
      reports setup w.group e = reports setup h e := by
  have hsound := hf.sound.step e
  unfold reports
  rw [hw]
  rw [Group.step, hstep] at hsound ⊢
  rw [Group.step, hstep']
  exact ⟨⟨hsound, hframe, hsubject, hcounted, hfilling⟩, rfl⟩

theorem Follows.message {m : Msg} (hfinds : Finds setup b w (.message b via m)) :
    Follows setup b (w.step setup b (.message b via m)) (Group.step setup h (.message b via m)) ∧
      reports setup w.group (.message b via m) = reports setup h (.message b via m) := by
  obtain ⟨hsound, hframe, hsubject, hcounted, hfilling⟩ := id hf
  have hctx : getSubjectContext setup h b = getSubjectContext setup w.group b :=
    getSubjectContext_congr hsubject
  have harrives := arrives_congr hframe (getSubjectContext setup w.group b) via
  have hexpecting : h.shared.expectingInitial = w.group.shared.expectingInitial :=
    congrArg Prod.fst hframe
  have hwaits : h.shared.Waits := hsound.waits.of_frame hframe
  cases hthrough : arrives w.group.shared (getSubjectContext setup w.group b) via with
  | false =>
    have hthrough' : arrives h.shared (getSubjectContext setup h b) via = false := by
      rw [hctx, harrives, hthrough]
    have hlost : Checks setup w.group b via m = false := by rw [Checks, hthrough, Bool.false_and]
    refine hf.of_handle ?_ (handle_lost hthrough) (handle_lost hthrough') hframe hsubject hcounted
      hfilling
    rw [Watched.step_message, hlost]
    simp
  | true =>
    have hthrough' : arrives h.shared (getSubjectContext setup h b) via := by
      rw [hctx, harrives, hthrough]
    have hchecks : Checks setup w.group b via m =
        (handling setup w.group.shared (getSubjectContext setup w.group b) m).isChecked := by
      rw [Checks, hthrough, Bool.true_and]
    have hlooks : (handling setup w.group.shared (getSubjectContext setup w.group b) m).isChecked =
        true → Looks setup.transport (getSubjectContext setup w.group b).dqContext m →
          h.shared.tryToFillGap = w.group.shared.tryToFillGap := by
      intro hchecked hlooks
      exact hfilling.trans (hfinds (hchecks.trans hchecked) hlooks)
    obtain ⟨hrest, hframe', hcounted', hfilling'⟩ := @result_congr setup w.group.shared
      (getSubjectContext setup w.group b) m h.shared
      (handling setup w.group.shared (getSubjectContext setup w.group b) m) hframe hcounted hlooks
    have hstep := handle_message (m := m) hsound.waits hthrough
    have hstep' := handle_message (m := m) hwaits hthrough'
    rw [hctx, handling_congr hexpecting] at hstep'
    dsimp only at hstep hstep'
    rw [hrest] at hstep'
    refine hf.of_handle (Watched.step_message via m) hstep hstep' hframe' ?_ ?_ ?_
    · dsimp only
      rw [update_self, update_self]
    · rwa [getSubjectContext_update, if_pos rfl, ← hrest]
    · rw [Group.step, hstep, hchecks, ← hfilling, hfilling']
      simp

theorem Follows.initialTimeout (hfinds : Finds setup b w .initialTimeout) :
    Follows setup b (w.step setup b .initialTimeout) (Group.step setup h .initialTimeout) ∧
      reports setup w.group .initialTimeout = reports setup h .initialTimeout := by
  obtain ⟨hsound, hframe, hsubject, hcounted, hfilling⟩ := id hf
  obtain ⟨hwait, hactive, hcontext⟩ := frame_eq_iff.1 hframe
  injection hwait with hexpecting hrequest
  by_cases htimer : w.group.shared.initialRequest.replyTimer
  · have htimer' : h.shared.initialRequest.replyTimer := by
      rwa [hrequest]
    obtain ⟨expecting, active, r, hleft, hright⟩ := @processTimeout_congr setup w.group.shared
      { w.group.shared.initialRequest with replyTimer := false }
      w.group.shared.subjectContext.imageCount h.shared
      (fun hinbox _ => by
        rw [hcounted]; exact hfinds htimer hinbox)
      hexpecting hactive
    have hstep : handle setup w.group .initialTimeout =
        ({ w.group with shared := { w.group.shared with
            expectingInitial := expecting, active := active, initialRequest := r.1 } }, r.2) := by
      rw [handle, if_pos htimer, hleft]
    have hstep' : handle setup h .initialTimeout =
        ({ h with shared := { h.shared with
            expectingInitial := expecting, active := active, initialRequest := r.1 } }, r.2) := by
      rw [← hrequest, ← hcontext] at hright
      rw [handle, if_pos htimer', hright]
    refine hf.of_handle rfl hstep hstep' ?_ hsubject hcounted hfilling
    show (expecting, r.1, active, h.shared.subjectContext) =
      (expecting, r.1, active, w.group.shared.subjectContext)
    rw [hcontext]
  refine hf.of_handle rfl (if_neg htimer) (if_neg fun htimer' => htimer ?_) hframe hsubject hcounted
    hfilling
  rw [hrequest] at htimer'
  exact htimer'

theorem Follows.recapTimeout :
    Follows setup b (w.step setup b (.recapTimeout b)) (Group.step setup h (.recapTimeout b)) ∧
      reports setup w.group (.recapTimeout b) = reports setup h (.recapTimeout b) := by
  obtain ⟨hsound, hframe, hsubject, hcounted, hfilling⟩ := id hf
  obtain ⟨hwait, hactive, hcontext⟩ := frame_eq_iff.1 hframe
  injection hwait with hexpecting hrequest
  have hctx : getSubjectContext setup h b = getSubjectContext setup w.group b :=
    getSubjectContext_congr hsubject
  by_cases htimer : (getSubjectContext setup w.group b).recapRequest.replyTimer
  · obtain ⟨expecting, active, r, hleft, hright⟩ := @processTimeout_congr setup w.group.shared
      { (getSubjectContext setup w.group b).recapRequest with replyTimer := false }
      (getSubjectContext setup w.group b).imageCount h.shared
      (fun hinbox hrecap => by
        -- a request with an inbox was sent as a recap
        have hsent := hsound.recaps b htimer
        rw [show (getSubjectContext setup w.group b).recapRequest.p2pListener from hinbox,
          show (getSubjectContext setup w.group b).recapRequest.isRecapRequest = false from hrecap]
          at hsent
        cases hsent)
      hexpecting hactive
    have hstep : handle setup w.group (.recapTimeout b) =
        ({ shared := { w.group.shared with expectingInitial := expecting, active := active }
           subjects := Function.update w.group.subjects b
             (some { getSubjectContext setup w.group b with recapRequest := r.1 }) }, r.2) := by
      unfold handle
      dsimp only
      rw [if_pos htimer, hleft]
    have hstep' : handle setup h (.recapTimeout b) =
        ({ shared := { h.shared with expectingInitial := expecting, active := active }
           subjects := Function.update h.subjects b
             (some { getSubjectContext setup w.group b with recapRequest := r.1 }) }, r.2) := by
      unfold handle
      dsimp only
      rw [hctx, if_pos htimer, hright]
    refine hf.of_handle rfl hstep hstep' ?_ ?_ ?_ hfilling
    · show (expecting, h.shared.initialRequest, active, h.shared.subjectContext) =
        (expecting, w.group.shared.initialRequest, active, w.group.shared.subjectContext)
      rw [hrequest, hcontext]
    · dsimp only
      rw [update_self, update_self]
    · rwa [getSubjectContext_update, if_pos rfl]
  refine hf.of_handle rfl (if_neg htimer) (if_neg fun htimer' => htimer ?_) hframe hsubject hcounted
    hfilling
  rw [hctx] at htimer'
  exact htimer'

theorem Follows.keep (hmeets : Meets setup b w e)
    (he : concerns b e) : Follows setup b (w.step setup b e) (Group.step setup h e) ∧
      reports setup w.group e = reports setup h e := by
  have hfinds : Finds setup b w e := by
    unfold Meets at hmeets; rwa [if_pos he] at hmeets
  cases e with
  | message a via m => obtain rfl := of_decide_eq_true he; exact hf.message hfinds
  | initialTimeout => exact hf.initialTimeout hfinds
  | recapTimeout a => obtain rfl := of_decide_eq_true he; exact hf.recapTimeout

end

omit [DecidableEq σ] in
theorem follows_start : Follows setup b ⟨start setup, false⟩ (start setup) where
  sound := sound_start
  frame := rfl
  subject := rfl
  counted := rfl
  filling := rfl

/-- **The symbols of a group are independent**, in every run in which

* no other symbol ends the wait for the initials: while it lasts, no message of another symbol is an
  error, and no timer ends another symbol's recap request;
* the timer of the initial request finds an image just if the symbol has one;
* a message of the symbol that looks at `mTryToFillGap` with something in its ring finds what the
  messages of the symbol left there. -/
theorem independent_of_along (setup : Setup) (b : σ) (es : List (Event σ))
    (h : Lib.Along (Watched.step setup b) (Meets setup b) ⟨start setup, false⟩ es) :
    Independent setup b es := by
  have hkeep : ∀ (w : Watched σ) (h : GroupSubscription σ) (e : Event σ), Follows setup b w h →
      Meets setup b w e → concerns b e →
        Follows setup b (w.step setup b e) (Group.step setup h e) ∧
          reports setup w.group e = reports setup h e :=
    fun _ _ _ hf hmeets he => hf.keep hmeets he
  have hdrop : ∀ (w : Watched σ) (h : GroupSubscription σ) (e : Event σ), Follows setup b w h →
      Meets setup b w e → concerns b e = false → Follows setup b (w.step setup b e) h :=
    fun _ _ _ hf hmeets he => hf.drop hmeets he
  obtain ⟨hseen, hend⟩ := Lib.transcript_simulates hkeep hdrop follows_start h
  have hgroup : ∀ (w : Watched σ) (e : Event σ),
      (w.step setup b e).group = Group.step setup w.group e := by
    intro w e
    cases e <;> rfl
  have hfull : Lib.transcript (Watched.step setup b) (fun w e => reports setup w.group e)
      (concerns b) ⟨start setup, false⟩ es = seenBy setup b (start setup) es :=
    @Lib.transcript_image _ _ _ _ _ (step setup) _ (reports setup) Watched.group _ hgroup
      (fun _ _ => rfl) ⟨start setup, false⟩ es
  have hrun : (es.foldl (Watched.step setup b) ⟨start setup, false⟩).group =
      run setup (start setup) es := (List.foldl_hom _ fun w e => (hgroup w e).symm).symm
  refine ⟨hfull.symm.trans hseen, ?_⟩
  obtain ⟨hwait, -, -⟩ := frame_eq_iff.1 hend.frame
  rw [hrun] at hwait
  exact hwait.symm

end

/-! ### Two symbols -/

/-- A group that forwards updates and asks for its initials once more. -/
def twice : Setup where
  transport := Dq.Strategy.usual
  retries := 1
  preInitialCacheSize := 4
  expectsUpdates := true

def numbered (type : MsgType) (seqNum : UInt32) : Msg := Dq.Strategy.updateOf type seqNum 1

/-- Initials and updates of two symbols, the end of the wait, a gap of the first symbol with its
recap timer, and an error for it. -/
def apart : List (Event ℕ) :=
  [.message 0 .topic (numbered .update 4), .message 1 .topic (numbered .update 5),
    .message 0 .initialInbox (numbered .initial 5), .message 1 .initialInbox (numbered .initial 4),
    .message 1 .topic (numbered .update 6), .initialTimeout,
    .message 0 .topic (numbered .update 8), .recapTimeout 0,
    .message 0 .topic ((numbered .update 9).setStatus .badSymbol),
    .message 1 .topic (numbered .update 8)]

theorem independent_apart : Independent twice 1 apart :=
  independent_of_along twice 1 apart (by decide +kernel)

/-- The initial of one symbol, with which the timer ends the wait for the other one. -/
def counted : List (Event ℕ) :=
  [.message 0 .initialInbox (numbered .initial 5), .initialTimeout,
    .message 1 .topic (numbered .update 6)]

def failed : List (Event ℕ) :=
  [.message 0 .topic ((numbered .update 0).setStatus .badSymbol),
    .message 1 .topic (numbered .update 6)]

/-- Both initials, a gap of the first symbol, and the timer. -/
def recapped : List (Event ℕ) :=
  [.message 0 .initialInbox (numbered .initial 5), .message 1 .initialInbox (numbered .initial 5),
    .message 0 .topic (numbered .update 8), .initialTimeout]

/-- The first symbol has the updates of the second one forwarded before its initial, by its own
initial and by an error, and it has the initials asked for again, by its recap request. -/
theorem not_itemIndependent : ¬ Independent twice 1 counted ∧ ¬ Independent twice 1 failed ∧
    ¬ Independent twice 1 recapped := by
  decide +kernel

end Mama.Group
