import Mathlib.Data.List.Induction
import OpenMama.Mamda.OrderBookListener

/-!
# Messages, quality changes and timers

`Listener` with what stands around it: the quality of the book, the conflation
timer, the handlers and the lock of the full book.  A session takes book
messages (`onMsg`), quality changes (`setQuality`) and firings of the conflation
timer (`onTimer`), and each of these leaves a list of acts: what it did to the
lock and which handlers it invoked, in order.

* `lockBalanced_iff`: the lock is free after every call exactly as long as no
  update comes to the one return of `handleUpdate` that keeps it and no message
  throws while it is read.
* `seqLaw_iff`: when the gap detection answers for the last non-zero sequence
  number.

A handler is not modelled beyond its being invoked.  Creating a timer always
succeeds.
-/

namespace Mamda

open Mama Lib Option

/-- `mamaQuality`. -/
inductive Quality
  | ok
  | maybeStale
  | stale
  | partialStale
  | forcedStale
  | duplicate
  | unknown
  deriving DecidableEq, Repr

/-- The message types `onMsg` tells apart. -/
inductive BookMsgType
  | bookUpdate
  | bookClear
  | bookInitial
  | bookRecap
  | bookSnapshot
  | other
  deriving DecidableEq, Repr

inductive Act
  | acquireLock
  | releaseLock
  | invokeGapHandlers (gapBegin gapEnd : Nat)
  | invokeClearHandlers
  | invokeRecapHandlers
  | invokeDeltaHandlers
  | createTimer
  | destroyTimer
  deriving DecidableEq, Repr

/-- `MamdaOrderBookListenerImpl` with its switches; `hasHandlers` is `!mHandlers.empty ()` and
`conflationTimer` says whether there is a timer. -/
structure Session where
  listener : Listener
  quality : Quality
  gapBegin : Nat
  gapEnd : Nat
  hasHandlers : Bool
  updateInconsistentBook : Bool
  updateStaleBook : Bool
  clearStaleBook : Bool
  conflationTimer : Bool

namespace Session

/-- A session as the constructors leave it, with handlers added. -/
def new (listener : Listener) : Session where
  listener := listener
  quality := .unknown
  gapBegin := 0
  gapEnd := 0
  hasHandlers := true
  updateInconsistentBook := false
  updateStaleBook := false
  clearStaleBook := true
  conflationTimer := false

abbrev Result := Session × List Act

def clear (x : Session) : Result :=
  ({ x with
     gapBegin := 0
     gapEnd := 0
     listener := { x.listener with
       fields := .cleared
       eventSeqNum := 0
       gotInitial := false
       book := x.listener.book.clear
       isConsistent := true } }, [.acquireLock, .releaseLock])

def setQuality (x : Session) (quality : Quality) : Result :=
  if x.quality = quality then (x, [])
  else
    let x := { x with quality := quality }
    match quality with
    | .ok | .duplicate => (x, [])
    | .maybeStale | .stale | .partialStale | .forcedStale | .unknown =>
      if x.clearStaleBook then
        let (x, acts) := x.clear
        (x, acts ++ [.invokeClearHandlers])
      else (x, [])

/-- Whether a message with this sequence number leaves a gap; a repeated number does not. -/
def leavesGap (x : Session) (msg : BookMsg) (isRecap : Bool) : Bool :=
  let (l, ignored) := x.listener.processBookMessage msg isRecap
  !isRecap && !ignored && l.fields.msgSeqNum != 0 &&
    l.fields.msgSeqNum != u32Inc x.listener.eventSeqNum

/-- `processBookMessage`, with the gap it reports. -/
def processBookMessage (x : Session) (msg : BookMsg) (isRecap : Bool) : Result :=
  let l := (x.listener.processBookMessage msg isRecap).1
  if x.leavesGap msg isRecap then
    let y := { x with
      listener := l
      gapBegin := u32Inc x.listener.eventSeqNum
      gapEnd := u32Dec l.fields.msgSeqNum }
    (y, [.invokeGapHandlers y.gapBegin y.gapEnd])
  else ({ x with listener := l }, [])

def invokeDeltaHandlers (x : Session) : Result :=
  if x.listener.deltas.currentDeltaCount = 0 then (x, [])
  else ({ x with listener := x.listener.afterHandlers }, [.invokeDeltaHandlers])

def handleClear (x : Session) (msg : BookMsg) : Result :=
  let (x, gap) := x.processBookMessage msg true
  let deltas := x.listener.deltas
  ({ x with listener := { x.listener with
      book := x.listener.book.clear
      isConsistent := true
      deltas := { deltas with simpleDelta := none, complexDelta := deltas.complexDelta.clear }
      gotInitial := true } },
    [.acquireLock] ++ gap ++ [.invokeClearHandlers, .releaseLock])

/-- `handleRecap`; none if the message makes the listener read past a vector.  A message that
completes its set makes the quality good. -/
def handleRecap (x : Session) (msg : BookMsg) : Option Result :=
  let (x, gap) := x.processBookMessage msg true
  match x.listener.createDelta with
  | .ok l =>
    if l.fields.numLevels = 0 ∨ l.fields.msgNum = l.fields.msgTotal then
      let deltas := { l.deltas with complexDelta := l.deltas.complexDelta.clear }
      let (x, quality) := { x with
        listener := { l with
          gotInitial := true
          isConsistent := true
          deltas := deltas } }.setQuality .ok
      some (x, [.acquireLock] ++ gap ++ quality ++ [.invokeRecapHandlers, .releaseLock])
    else
      some ({ x with listener := { l with gotInitial := true, isConsistent := true } },
        [.acquireLock] ++ gap ++ [.releaseLock])
  | .error (.thrown l) =>
    some ({ x with listener := { l with gotInitial := true } },
      [.acquireLock] ++ gap ++ [.releaseLock])
  | .error .crash => none

/-- The end of `handleUpdate`, once the delta is made.  With a timer running it returns without
releasing the lock. -/
def forwardUpdate (x : Session) : Result :=
  if x.hasHandlers && (x.updateInconsistentBook || x.listener.isConsistent) then
    let list := x.listener.deltas.complexDelta
    if list.conflateDeltas && !list.sendImmediately then
      if x.conflationTimer then (x, [])
      else ({ x with conflationTimer := true }, [.createTimer, .releaseLock])
    else
      let (x, acts) := x.invokeDeltaHandlers
      (x, acts ++ [.releaseLock])
  else (x, [.releaseLock])

/-- `handleUpdate`; an update before the first recap or clear is refused with an exception. -/
def handleUpdate (x : Session) (msg : BookMsg) : Option Result :=
  if x.listener.gotInitial then
    let ignored := (x.listener.processBookMessage msg false).2
    let (x, gap) := x.processBookMessage msg false
    if ignored then some (x, [.acquireLock] ++ gap ++ [.releaseLock])
    else
      match Listener.caught x.listener.createDelta with
      | some l =>
        let (x, acts) := { x with listener := l }.forwardUpdate
        some (x, [.acquireLock] ++ gap ++ acts)
      | none => none
  else some (x, [])

def onMsg (x : Session) (msgType : BookMsgType) (msg : BookMsg) : Option Result :=
  match msgType with
  | .bookUpdate =>
    if x.quality ≠ .ok ∧ x.updateStaleBook = false then some (x, []) else x.handleUpdate msg
  | .bookClear => some (x.handleClear msg)
  | .bookInitial | .bookRecap | .bookSnapshot => x.handleRecap msg
  | .other => some (x, [])

/-- Whether `onMsg` comes to `processBookMessage`. -/
def reads (x : Session) : BookMsgType → Bool
  | .bookUpdate => (x.quality == .ok || x.updateStaleBook) && x.listener.gotInitial
  | .bookClear | .bookInitial | .bookRecap | .bookSnapshot => true
  | .other => false

/-- What is done with a message whose `BOOK_TYPE` is no u8: `tryU8` throws once the lock is taken
and the fields are cleared, and nothing between there and `onMsg` catches. -/
def throwUnread (x : Session) : Result :=
  ({ x with listener := { x.listener with fields := .cleared } }, [.acquireLock])

def onUnreadable (x : Session) (msgType : BookMsgType) : Result :=
  if x.reads msgType then x.throwUnread else (x, [])

def onTimer (x : Session) : Result :=
  let count := x.listener.deltas.currentDeltaCount
  let (x, acts) :=
    if count = 0 then (x, [])
    else
      let (x, acts) :=
        if count = 1 ∨ x.listener.deltas.complexDelta.getSize ≠ 0 then x.invokeDeltaHandlers
        else (x, [])
      ({ x with listener := { x.listener with book := x.listener.book.cleanupDetached } }, acts)
  ({ x with conflationTimer := false }, [.acquireLock] ++ acts ++ [.releaseLock, .destroyTimer])

end Session

inductive SessionEvent
  | msg (msgType : BookMsgType) (msg : BookMsg)
  /-- A message whose `BOOK_TYPE` does not convert. -/
  | unreadable (msgType : BookMsgType)
  | quality (quality : Quality)
  | timer

namespace Session

/-- One event; a timer that does not exist cannot fire. -/
def step (x : Session) : SessionEvent → Option Result
  | .msg msgType msg => x.onMsg msgType msg
  | .unreadable msgType => some (x.onUnreadable msgType)
  | .quality quality => some (x.setQuality quality)
  | .timer => some (if x.conflationTimer then x.onTimer else (x, []))

def run (x : Session) : List SessionEvent → Option Result
  | [] => some (x, [])
  | e :: es => do
    let (y, acts) ← x.step e
    let (z, rest) ← y.run es
    pure (z, acts ++ rest)

end Session

/-! ## The lock -/

/-- The lock after some acts: none if they take it while it is held or give it back while it is
free. -/
def lockAfter (held : Bool) : List Act → Option Bool
  | [] => some held
  | .acquireLock :: acts => if held then none else lockAfter true acts
  | .releaseLock :: acts => if held then lockAfter false acts else none
  | _ :: acts => lockAfter held acts

theorem lockAfter_append (held : Bool) (acts acts' : List Act) :
    lockAfter held (acts ++ acts') = (lockAfter held acts).bind fun h => lockAfter h acts' := by
  induction acts generalizing held with
  | nil => rfl
  | cons a acts ih => cases a <;> cases held <;> simp [lockAfter, ih]

namespace Session

/-- Whether the event leaves the lock held: it is an update that is not ignored, its delta is to be
conflated and a timer is running, or its `BOOK_TYPE` is read and does not convert. -/
def keepsLock (x : Session) (e : SessionEvent) : Bool :=
  match e with
  | .unreadable msgType => x.reads msgType
  | .msg .bookUpdate msg =>
    (x.quality == .ok || x.updateStaleBook) && x.listener.gotInitial &&
      !(x.listener.processBookMessage msg false).2 && x.hasHandlers && x.conflationTimer &&
      match x.listener.applyUpdate msg with
      | some l =>
        (x.updateInconsistentBook || l.isConsistent) &&
          (l.deltas.complexDelta.conflateDeltas && !l.deltas.complexDelta.sendImmediately)
      | none => false
  | _ => false

variable {acts : List Act} {y : Session}

section

variable (x : Session)

theorem lockAfter_gap (msg : BookMsg) (isRecap held : Bool) (acts : List Act) :
    lockAfter held ((x.processBookMessage msg isRecap).2 ++ acts) = lockAfter held acts := by
  unfold processBookMessage
  split <;> rfl

theorem lockAfter_deltas (held : Bool) (acts : List Act) :
    lockAfter held (x.invokeDeltaHandlers.2 ++ acts) = lockAfter held acts := by
  unfold invokeDeltaHandlers
  split <;> rfl

theorem setQuality_ok : (x.setQuality .ok).2 = [] := by
  unfold setQuality
  split <;> rfl

theorem lock_setQuality (quality : Quality) :
    lockAfter false (x.setQuality quality).2 = some false := by
  unfold setQuality
  split
  · rfl
  · cases quality <;> dsimp only
    case ok | duplicate => rfl
    all_goals
      split <;> rfl

theorem lock_handleClear (msg : BookMsg) : lockAfter false (x.handleClear msg).2 = some false := by
  exact lockAfter_gap x msg true true _

omit x in
theorem lock_handleRecap {x : Session} {msg : BookMsg} (h : x.handleRecap msg = some (y, acts)) :
    lockAfter false acts = some false := by
  unfold handleRecap at h
  dsimp only at h
  split at h
  · split at h
    · rw [setQuality_ok] at h
      cases h
      exact lockAfter_gap x msg true true _
    · cases h; exact lockAfter_gap x msg true true _
  · cases h; exact lockAfter_gap x msg true true _
  · cases h

theorem lock_forwardUpdate :
    lockAfter true x.forwardUpdate.2 = some (x.hasHandlers && x.conflationTimer &&
      ((x.updateInconsistentBook || x.listener.isConsistent) &&
        (x.listener.deltas.complexDelta.conflateDeltas &&
          !x.listener.deltas.complexDelta.sendImmediately))) := by
  unfold forwardUpdate
  dsimp only
  cases hh : x.hasHandlers with
  | false => rfl
  | true =>
    cases hc : x.updateInconsistentBook || x.listener.isConsistent with
    | false => simp [lockAfter]
    | true =>
      cases hd : x.listener.deltas.complexDelta.conflateDeltas &&
          !x.listener.deltas.complexDelta.sendImmediately with
      | false => simp only [Bool.and_false]; exact lockAfter_deltas x true _
      | true => cases ht : x.conflationTimer <;> rfl

theorem processBookMessage_listener (msg : BookMsg) (isRecap : Bool) :
    (x.processBookMessage msg isRecap).1.listener =
      (x.listener.processBookMessage msg isRecap).1 := by
  unfold processBookMessage
  split <;> rfl

theorem processBookMessage_switches (msg : BookMsg) (isRecap : Bool) :
    (x.processBookMessage msg isRecap).1.hasHandlers = x.hasHandlers ∧
      (x.processBookMessage msg isRecap).1.conflationTimer = x.conflationTimer ∧
      (x.processBookMessage msg isRecap).1.updateInconsistentBook = x.updateInconsistentBook := by
  unfold processBookMessage
  split <;> exact ⟨rfl, rfl, rfl⟩

theorem step_hasHandlers {e : SessionEvent} {r : Result} (h : x.step e = some r) :
    r.1.hasHandlers = x.hasHandlers := by
  have hquality : ∀ (y : Session) q, (y.setQuality q).1.hasHandlers = y.hasHandlers := by
    intro y q
    unfold setQuality
    split
    · rfl
    · cases q <;> dsimp only <;> split <;> rfl
  have hdeliver : ∀ y : Session, y.invokeDeltaHandlers.1.hasHandlers = y.hasHandlers := by
    intro y
    unfold invokeDeltaHandlers
    split <;> rfl
  have hread := fun msg isRecap => (processBookMessage_switches x msg isRecap).1
  cases e with
  | unreadable msgType =>
    cases h
    unfold onUnreadable
    split <;> rfl
  | quality q => cases h; exact hquality x q
  | timer =>
    cases h
    unfold onTimer
    grind
  | msg msgType msg =>
    cases msgType with
    | bookUpdate =>
      simp only [step, onMsg, handleUpdate, forwardUpdate] at h
      grind
    | bookClear => cases h; exact hread msg true
    | bookInitial | bookRecap | bookSnapshot =>
      simp only [step, onMsg, handleRecap] at h
      grind
    | other => cases h; rfl

end

theorem handleUpdate_eq {x : Session} (hx : x.listener.gotInitial) (msg : BookMsg) :
    x.handleUpdate msg =
      if (x.listener.processBookMessage msg false).2 then
        some ((x.processBookMessage msg false).1,
          [.acquireLock] ++ (x.processBookMessage msg false).2 ++ [.releaseLock])
      else
        (x.listener.applyUpdate msg).map fun l =>
          let y := { (x.processBookMessage msg false).1 with listener := l }
          (y.forwardUpdate.1, [.acquireLock] ++ (x.processBookMessage msg false).2 ++
            y.forwardUpdate.2) := by
  rw [handleUpdate, Listener.applyUpdate, if_pos hx, if_pos hx]
  dsimp only
  rw [processBookMessage_listener]
  cases x.listener.processBookMessage msg false with
  | mk l ignored =>
    cases ignored with
    | true => rfl
    | false =>
      dsimp only
      cases Listener.caught l.createDelta <;> rfl

theorem lock_handleUpdate {x : Session} {msg : BookMsg} (hx : x.quality = .ok ∨ x.updateStaleBook)
    (h : x.handleUpdate msg = some (y, acts)) :
    lockAfter false acts = some (x.keepsLock (.msg .bookUpdate msg)) := by
  have hq : (x.quality == Quality.ok || x.updateStaleBook) = true := by
    rcases hx with hx | hx <;> simp [hx]
  unfold keepsLock
  dsimp only
  rw [hq]
  cases hi : x.listener.gotInitial with
  | false =>
    rw [handleUpdate, if_neg (by rw [hi]; exact Bool.false_ne_true)] at h
    cases h
    rfl
  | true =>
    rw [handleUpdate_eq hi] at h
    cases hig : (x.listener.processBookMessage msg false).2 with
    | true =>
      rw [if_pos hig] at h
      cases h
      exact lockAfter_gap x msg false true _
    | false =>
      rw [if_neg (by rw [hig]; exact Bool.false_ne_true)] at h
      obtain ⟨l, hl, hacts⟩ := map_eq_some_iff.mp h
      cases hacts
      obtain ⟨hhandlers, htimer, hinc⟩ := processBookMessage_switches x msg false
      rw [hl]
      refine (lockAfter_gap x msg false true _).trans ((lock_forwardUpdate _).trans ?_)
      simp [hhandlers, htimer, hinc]

theorem lock_onTimer (x : Session) : lockAfter false x.onTimer.2 = some false := by
  unfold onTimer
  dsimp only
  split
  · rfl
  · dsimp only
    split
    · exact lockAfter_deltas x true _
    · rfl

variable {e : SessionEvent}

/-- **One event**: the lock is free after it unless it is one that keeps it. -/
theorem lock_step {x : Session} (h : x.step e = some (y, acts)) :
    lockAfter false acts = some (x.keepsLock e) := by
  cases e with
  | unreadable msgType =>
    have hacts : (x.onUnreadable msgType).2 = acts := congrArg Prod.snd (some.inj h)
    rw [← hacts]
    cases hreads :
      x.reads msgType <;> simp [onUnreadable, throwUnread, keepsLock, hreads, lockAfter]
  | quality quality =>
    have hacts : (x.setQuality quality).2 = acts := congrArg Prod.snd (some.inj h)
    rw [← hacts]
    exact lock_setQuality x quality
  | timer =>
    have hacts : (if x.conflationTimer then x.onTimer else (x, [])).2 = acts :=
      congrArg Prod.snd (some.inj h)
    rw [← hacts]
    split
    · exact lock_onTimer x
    · rfl
  | msg msgType msg =>
    cases msgType with
    | bookUpdate =>
      simp only [step, onMsg] at h
      split at h
      · next hstale => cases h; simp [keepsLock, hstale.1, hstale.2, lockAfter]
      next hfresh =>
      refine lock_handleUpdate ?_ h
      by_cases hq : x.quality = .ok
      · exact .inl hq
      · right
        rw [← Bool.not_eq_false]
        intro hs
        exact hfresh ⟨hq, hs⟩
    | bookClear =>
      have hacts : (x.handleClear msg).2 = acts := congrArg Prod.snd (some.inj h)
      rw [← hacts]
      exact lock_handleClear x msg
    | bookInitial => exact lock_handleRecap h
    | bookRecap => exact lock_handleRecap h
    | bookSnapshot => exact lock_handleRecap h
    | other => cases h; rfl

theorem run_concat (x : Session) (es : List SessionEvent) (e : SessionEvent) :
    x.run (es ++ [e]) = (x.run es).bind fun r =>
      (r.1.step e).map fun r' => (r'.1, r.2 ++ r'.2) := by
  induction es generalizing x with
  | nil =>
    simp only [List.nil_append, run]
    cases h : x.step e <;> simp [h]
  | cons e' es ih =>
    simp only [List.cons_append, run]
    cases x.step e' with
    | none => rfl
    | some r =>
      simp only [bind_eq_bind, bind_some, ih]
      cases r.1.run es with
      | none => rfl
      | some r' => cases h : r'.1.step e <;> simp [h]

theorem step_of_keepsLock {x : Session} (h : x.keepsLock e) : ∃ r, x.step e = some r := by
  cases e with
  | unreadable msgType => exact ⟨_, rfl⟩
  | quality quality => exact ⟨_, rfl⟩
  | timer => exact ⟨_, rfl⟩
  | msg msgType msg =>
    cases msgType <;> try cases h
    simp only [keepsLock, Bool.and_eq_true] at h
    obtain ⟨⟨⟨⟨⟨hq, hi⟩, hig⟩, -⟩, -⟩, happ⟩ := h
    have hstale : ¬ (x.quality ≠ .ok ∧ x.updateStaleBook = false) := by
      rintro ⟨h₁, h₂⟩; simp [h₁, h₂] at hq
    cases hl : x.listener.applyUpdate msg with
    | none => simp [hl] at happ
    | some l =>
      simp only [step, onMsg, if_neg hstale, handleUpdate_eq hi, hl]
      rw [if_neg (by simpa using hig)]
      exact ⟨_, rfl⟩

/-- Over a run the lock is taken only while it is free, and it is free whenever `onMsg`,
`setQuality` or `onTimer` has returned. -/
def LockBalanced (x : Session) (es : List SessionEvent) : Prop :=
  ∀ pre, pre <+: es → ∀ y acts, x.run pre = some (y, acts) → lockAfter false acts = some false

/-- **The lock over whole runs.**  It is balanced exactly as long as no update is conflated
into an interval whose timer is running and no `BOOK_TYPE` that is read fails to convert. -/
theorem lockBalanced_iff (x : Session) (es : List SessionEvent) : x.LockBalanced es ↔ ∀ pre e,
    pre ++ [e] <+: es → ∀ y acts, x.run pre = some (y, acts) → y.keepsLock e = false := by
  constructor
  · intro hb pre e hpre y acts hrun
    by_contra hearly
    rw [Bool.not_eq_false] at hearly
    obtain ⟨⟨z, more⟩, hstep⟩ := step_of_keepsLock hearly
    have hfree := hb pre ((List.prefix_append pre [e]).trans hpre) y acts hrun
    have hheld := hb (pre ++ [e]) hpre z (acts ++ more) (by
      rw [run_concat, hrun, bind_some, hstep, map_some])
    rw [lockAfter_append, hfree, bind_some, lock_step hstep, hearly] at hheld
    cases hheld
  intro hearly pre
  -- the run is built up event by event from the left
  induction pre using List.reverseRecOn with
  | nil =>
    intro _ y acts hrun
    cases hrun
    rfl
  | append_singleton pre e ih =>
    intro hpre z acts hrun
    rw [run_concat] at hrun
    obtain ⟨⟨y, before⟩, hy, hmap⟩ := bind_eq_some_iff.mp hrun
    obtain ⟨⟨z', more⟩, hstep, heq⟩ := map_eq_some_iff.mp hmap
    cases heq
    have hfree := ih ((List.prefix_append pre [e]).trans hpre) y before hy
    rw [lockAfter_append, hfree, bind_some, lock_step hstep]
    exact congrArg some (hearly pre e hpre y before hy)

end Session

def bidUpdate (seqNum : Nat) (price : Price) (size : Int) : BookMsg :=
  [.msgSeqNum seqNum, .level (.plPrice price), .level (.plSide .bid), .level (.plAction .add),
    .level (.plSize size), .level (.plNumAttach 0)]

def emptyRecap (seqNum : Nat) : BookMsg := [.msgSeqNum seqNum, .numLevels 0]

def conflating : Session :=
  .new { Listener.new 0 (fun _ => true) 0 with
    deltas := ⟨0, none, { DeltaList.new 0 with conflateDeltas := true }⟩ }

/-- The second update of an interval returns with the lock held. -/
theorem second_update_keeps_lock :
    ¬ conflating.LockBalanced [.msg .bookRecap (emptyRecap 1),
      .msg .bookUpdate (bidUpdate 2 10 5), .msg .bookUpdate (bidUpdate 3 11 5)] := by
  intro hb
  have hheld : (conflating.run [.msg .bookRecap (emptyRecap 1),
      .msg .bookUpdate (bidUpdate 2 10 5), .msg .bookUpdate (bidUpdate 3 11 5)]).map
        (fun r => lockAfter false r.2) = some (some true) := by
    decide +kernel
  obtain ⟨⟨y, acts⟩, hrun, hlock⟩ := map_eq_some_iff.mp hheld
  have hfree := hb _ List.prefix_rfl y acts hrun
  rw [hfree] at hlock
  cases hlock

end Mamda
