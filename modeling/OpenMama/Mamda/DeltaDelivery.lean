import OpenMama.Lib.Runs
import OpenMama.Mamda.HeldDeltas
import OpenMama.Mamda.ListenerMessages

/-!
# Delivery of deltas to the handlers

A `Session` with its handlers.  What happens to the deltas is logged: an update adds
some, `invokeDeltaHandlers` gives them to every handler, and a recap or a clear
discards what was held back.  Each invocation is to give every handler the deltas
added since the one before, as the mode of the list keeps them (`Feed.Accounted`).

`invokeDeltaHandlers` empties the list of a complex delta inside its loop, so only
the first handler sees it; and a recap leaves the counter of the deltas behind, so
that a single delta of a recap goes out with the next update.
`accounted_of_meets` shows that a run without these is accounted for.
-/

namespace Mamda

open Mama Lib List Option

def Listener.Delivery.list : Listener.Delivery → List BasicDelta
  | .nothing => []
  | .simple d => [d]
  | .complex ds => ds

inductive DeltaAct
  | added (ds : List BasicDelta)
  /-- `invokeDeltaHandlers` gives each handler something. -/
  | invoked (given : List Listener.Delivery)
  /-- A recap, a clear or `clearConflatedDeltas`. -/
  | discarded
  /-- `forceInvokeDeltaHandlers` starts over without an invocation. -/
  | dropped

/-- The deltas that were added and neither given to the handlers nor discarded. -/
def pendingAfter (log : List DeltaAct) : List BasicDelta :=
  log.foldl (fun ds a => match a with
    | .added more => ds ++ more
    | .invoked _ | .discarded | .dropped => []) []

/-- The loop of `invokeDeltaHandlers` over `n` handlers: what each is given, and the listener that
is left.  A complex delta is cleared as soon as a handler has had it. -/
def Listener.handlerLoop (x : Listener) : Nat → List Listener.Delivery × Listener
  | 0 => ([], x)
  | n + 1 =>
    let y :=
      if x.deltas.currentDeltaCount > 1 then
        { x with deltas := { x.deltas with complexDelta := x.deltas.complexDelta.clear } }
      else x
    (x.delivery :: (y.handlerLoop n).1, (y.handlerLoop n).2)

inductive DeltaEvent
  | session (e : SessionEvent)
  | forceInvokeDeltaHandlers
  | clearConflatedDeltas

/-- A session, the number of its handlers and the log of its deltas. -/
structure Feed where
  session : Session
  handlers : Nat
  log : List DeltaAct

namespace Feed

/-! ## Algorithm -/

def publisher (x : Feed) : Publisher := x.session.listener.deltas

def pending (x : Feed) : List BasicDelta := pendingAfter x.log

def withListener (x : Feed) (l : Listener) : Feed :=
  { x with session := { x.session with listener := l } }

def note (x : Feed) (a : DeltaAct) : Feed := { x with log := x.log ++ [a] }

def invokeDeltaHandlers (x : Feed) : Feed :=
  if x.publisher.currentDeltaCount = 0 then x
  else
    let (given, l) := x.session.listener.handlerLoop x.handlers
    (x.withListener { l with
      book := if l.book.generateDeltas then l.book else l.book.cleanupDetached
      deltas := { l.deltas with currentDeltaCount := 0 } }).note (.invoked given)

/-- The test of `handleUpdate` that an update is forwarded. -/
def forwards (x : Feed) (l : Listener) : Prop :=
  x.handlers ≠ 0 ∧ (x.session.updateInconsistentBook || l.isConsistent) = true

instance (x : Feed) (l : Listener) : Decidable (x.forwards l) := by
  unfold forwards
  infer_instance

/-- The test of `handleUpdate` that deltas wait for the timer. -/
def conflates (l : Listener) : Bool :=
  l.deltas.complexDelta.conflateDeltas && !l.deltas.complexDelta.sendImmediately

/-- The end of `handleUpdate`, once the delta is made. -/
def forwardUpdate (x : Feed) : Feed :=
  if x.forwards x.session.listener then
    if conflates x.session.listener then
      { x with session := { x.session with conflationTimer := true } }
    else x.invokeDeltaHandlers
  else x

def handleUpdate (x : Feed) (msg : BookMsg) : Option Feed :=
  if x.session.listener.gotInitial then
    let y := { x with session := (x.session.processBookMessage msg false).1 }
    if (x.session.listener.processBookMessage msg false).2 then some y
    else
      (Listener.caught y.session.listener.createDelta).map fun l =>
        ((y.withListener l).note (.added y.session.listener.deltasAdded)).forwardUpdate
  else some x

/-- `onMsg`; a recap adds deltas too, but none for the handlers. -/
def onMsg (x : Feed) (msgType : BookMsgType) (msg : BookMsg) : Option Feed :=
  match msgType with
  | .bookUpdate =>
    if x.session.quality ≠ .ok ∧ x.session.updateStaleBook = false then some x
    else x.handleUpdate msg
  | .bookClear => some ({ x with session := (x.session.handleClear msg).1 }.note .discarded)
  | .bookInitial | .bookRecap | .bookSnapshot =>
    (x.session.handleRecap msg).map fun r => { x with session := r.1 }.note .discarded
  | .other => some x

/-- The test of `onTimer` and `forceInvokeDeltaHandlers` that there is something to deliver. -/
def hasDeltas (x : Feed) : Prop :=
  x.publisher.currentDeltaCount = 1 ∨ x.publisher.complexDelta.getSize ≠ 0

instance (x : Feed) : Decidable x.hasDeltas := by
  unfold hasDeltas
  infer_instance

def cleanupDetached (x : Feed) : Feed :=
  x.withListener { x.session.listener with book := x.session.listener.book.cleanupDetached }

def onTimer (x : Feed) : Feed :=
  let y :=
    if x.publisher.currentDeltaCount = 0 then x
    else (if x.hasDeltas then x.invokeDeltaHandlers else x).cleanupDetached
  { y with session := { y.session with conflationTimer := false } }

/-- `mCurrentDeltaCount = 0`. -/
def startOver (x : Feed) : Feed :=
  x.withListener { x.session.listener with deltas := { x.publisher with currentDeltaCount := 0 } }

def forceInvokeDeltaHandlers (x : Feed) : Feed :=
  if x.publisher.currentDeltaCount = 0 then x
  else (if x.hasDeltas then x.invokeDeltaHandlers else x.note .dropped).cleanupDetached.startOver

/-- One event; a timer that does not exist cannot fire. -/
def step (x : Feed) : DeltaEvent → Option Feed
  | .session (.msg msgType msg) => x.onMsg msgType msg
  | .session (.unreadable msgType) =>
    some { x with session := (x.session.onUnreadable msgType).1 }
  | .session (.quality quality) => some { x with session := (x.session.setQuality quality).1 }
  | .session .timer => some (if x.session.conflationTimer then x.onTimer else x)
  | .forceInvokeDeltaHandlers => some x.forceInvokeDeltaHandlers
  | .clearConflatedDeltas => some (x.startOver.note .discarded)

/-- What the owner of a listener chooses before the first message. -/
structure Options where
  handlers : Nat
  keepBasicDeltas : Bool
  conflateDeltas : Bool
  processEntries : Bool
  updateInconsistentBook : Bool
  updateStaleBook : Bool
  clearStaleBook : Bool

/-- A feed with these options; `junk` is what the constructor of the list leaves in `mSize`. -/
def new (o : Options) (listener : Listener) (junk : Nat) : Feed where
  session :=
    { Session.new { listener with
        processesEntries := o.processEntries
        deltas := ⟨0, none, { DeltaList.new junk with
          keepDeltas := o.keepBasicDeltas
          conflateDeltas := o.conflateDeltas
          processEntries := o.processEntries }⟩ } with
      hasHandlers := o.handlers ≠ 0
      updateInconsistentBook := o.updateInconsistentBook
      updateStaleBook := o.updateStaleBook
      clearStaleBook := o.clearStaleBook }
  handlers := o.handlers
  log := []

/-! ## What is to hold -/

def mode (x : Feed) : DeltaList.Mode := x.publisher.complexDelta.mode

/-- Every handler sees the same delta and nothing is lost. -/
structure Accounted (x : Feed) : Prop where
  /-- An invocation gives each handler the deltas added since the last one. -/
  told : ∀ pre given post, x.log = pre ++ .invoked given :: post →
    given.length = x.handlers ∧ ∀ g ∈ given, g.list = DeltaList.gathered x.mode (pendingAfter pre)
  dropped : ∀ pre post, x.log = pre ++ .dropped :: post →
    DeltaList.gathered x.mode (pendingAfter pre) = []
  /-- What is pending is held back for the next invocation. -/
  held : x.pending ≠ [] → x.publisher.waiting = DeltaList.gathered x.mode x.pending
  /-- A timer is running for what is held back of a consistent book. -/
  timed : x.session.listener.gotInitial → x.forwards x.session.listener →
    x.pending ≠ [] → x.publisher.waiting ≠ [] → x.session.conflationTimer

/-! ## Where it does -/

/-- Nothing that a recap or a clear has left behind counts as a delta. -/
def NoRest (x : Feed) : Prop :=
  x.pending = [] → x.publisher.currentDeltaCount = 0 ∨
    1 < x.publisher.currentDeltaCount ∧ x.publisher.complexDelta.keepDeltas ∧
      x.publisher.complexDelta.clear = x.publisher.complexDelta

/-- The handlers would be given one delta, or there is one handler at most. -/
def OneLook (x : Feed) (l : Listener) : Prop := x.handlers ≤ 1 ∨ l.deltas.currentDeltaCount ≤ 1

/-- Whether the message makes `processBookMessage` start over although nothing is delivered. -/
def startsOver (x : Feed) (msg : BookMsg) : Prop :=
  (x.session.listener.processBookMessage msg false).1.fields.msgNum = 1 ∧
    x.publisher.complexDelta.conflateDeltas = false

/-- Whether `handleUpdate` is called and does not refuse the update. -/
def takes (x : Feed) : Prop :=
  (x.session.quality = .ok ∨ x.session.updateStaleBook) ∧
    x.session.listener.gotInitial

def Meets (x : Feed) : DeltaEvent → Prop
  | .session (.msg .bookUpdate msg) => x.takes →
      (x.startsOver msg → x.pending = []) ∧
      ((x.session.listener.processBookMessage msg false).2 = false →
        (x.startsOver msg ∨ x.NoRest) ∧
        ∀ l, x.session.listener.applyUpdate msg = some l →
          (l.deltas.complexDelta.keepDeltas ∨ l.deltas.currentDeltaCount ≤ 1) ∧
          (x.forwards l → conflates l = false → x.OneLook l))
  | .session .timer => x.session.conflationTimer →
      x.NoRest ∧ (x.hasDeltas → x.OneLook x.session.listener)
  | .forceInvokeDeltaHandlers => x.NoRest ∧ (x.hasDeltas → x.OneLook x.session.listener)
  | _ => True

/-! ## The log -/

section Log

variable {mode : DeltaList.Mode} {n : Nat} {log : List DeltaAct}

/-- The part of `Accounted` that is about the log alone. -/
structure Tells (mode : DeltaList.Mode) (n : Nat) (log : List DeltaAct) : Prop where
  told : ∀ pre given post, log = pre ++ .invoked given :: post →
    given.length = n ∧ ∀ g ∈ given, g.list = DeltaList.gathered mode (pendingAfter pre)
  dropped : ∀ pre post, log = pre ++ .dropped :: post →
    DeltaList.gathered mode (pendingAfter pre) = []

variable {a : DeltaAct}

theorem split_concat {b : DeltaAct} {pre post : List DeltaAct} (h : log ++ [a] = pre ++ b :: post) :
    pre = log ∧ a = b ∨ ∃ post', log = pre ++ b :: post' := by
  rcases eq_nil_or_concat post with rfl | ⟨post', c, rfl⟩
  · obtain ⟨hlog, ha⟩ := append_inj' h rfl
    exact .inl ⟨hlog.symm, head_eq_of_cons_eq ha⟩
  · right
    rw [concat_eq_append, ← cons_append, ← append_assoc] at h
    exact ⟨post', append_inj_left' h rfl⟩

theorem Tells.note (h : Tells mode n log) (a : DeltaAct)
    (htold : ∀ given, a = .invoked given →
      given.length = n ∧ ∀ g ∈ given, g.list = DeltaList.gathered mode (pendingAfter log))
    (hdropped : a = .dropped → DeltaList.gathered mode (pendingAfter log) = []) :
    Tells mode n (log ++ [a]) where
  told pre given post hsplit := by
    rcases split_concat hsplit with ⟨rfl, ha⟩ | ⟨post', hlog⟩
    · exact htold given ha
    · exact h.told pre given post' hlog
  dropped pre post hsplit := by
    rcases split_concat hsplit with ⟨rfl, ha⟩ | ⟨post', hlog⟩
    · exact hdropped ha
    · exact h.dropped pre post' hlog

theorem pendingAfter_added (log : List DeltaAct) (ds : List BasicDelta) :
    pendingAfter (log ++ [.added ds]) = pendingAfter log ++ ds := by
  rw [pendingAfter, foldl_append]
  rfl

theorem pendingAfter_other (log : List DeltaAct) (h : ∀ ds, a ≠ .added ds) :
    pendingAfter (log ++ [a]) = [] := by
  rw [pendingAfter, foldl_append]
  cases a with
  | added ds => exact absurd rfl (h ds)
  | invoked given => rfl
  | discarded => rfl
  | dropped => rfl

theorem Tells.of_concat (h : Tells mode n (log ++ [a])) : Tells mode n log where
  told pre given post hsplit := h.told pre given (post ++ [a]) (by rw [hsplit, append_assoc]; rfl)
  dropped pre post hsplit := h.dropped pre (post ++ [a]) (by rw [hsplit, append_assoc]; rfl)

def addedIn (log : List DeltaAct) : List BasicDelta :=
  log.flatMap fun a => match a with
    | .added ds => ds
    | _ => []

def givenTo (i : Nat) (log : List DeltaAct) : List BasicDelta :=
  log.flatMap fun a => match a with
    | .invoked given => (given[i]?.map Listener.Delivery.list).getD []
    | _ => []

/-- Without conflation and until something is discarded, what is given to a handler and what is left
pending make up what was pending and what was added. -/
theorem Tells.addedIn_eq (pre : List DeltaAct) {post : List DeltaAct}
    (h : Tells .plain n (pre ++ post)) (hkept : .discarded ∉ post) {i : Nat} (hi : i < n) :
    pendingAfter pre ++ addedIn post = givenTo i post ++ pendingAfter (pre ++ post) := by
  induction post using List.reverseRecOn with
  | nil => rw [append_nil]; exact append_nil _
  | append_singleton post a ih =>
    rw [← append_assoc] at h ⊢
    have hpost := ih h.of_concat fun hmem => hkept (mem_append_left _ hmem)
    unfold addedIn givenTo at hpost ⊢
    rw [flatMap_append, flatMap_append, flatMap_singleton, flatMap_singleton, ← append_assoc, hpost]
    cases a with
    | added ds => rw [pendingAfter_added]; simp
    | invoked given =>
      obtain ⟨hlen, hall⟩ := h.told (pre ++ post) given [] rfl
      have hget : i < given.length := hlen ▸ hi
      have hlist := hall given[i] (getElem_mem hget)
      rw [DeltaList.gathered_plain] at hlist
      rw [pendingAfter_other (pre ++ post) (a := .invoked given) (fun _ h => by cases h)]
      simp [hget, hlist]
    | discarded => exact absurd (mem_append_right _ mem_cons_self) hkept
    | dropped =>
      have hnone := h.dropped (pre ++ post) [] rfl
      rw [DeltaList.gathered_plain] at hnone
      rw [pendingAfter_other (pre ++ post) (a := .dropped) (fun _ h => by cases h), hnone]

end Log

end Feed

/-! ## The handlers -/

namespace Listener

section

variable (x : Listener)

theorem list_delivery : x.delivery.list = x.deltas.waiting := by
  unfold delivery Publisher.waiting
  generalize x.deltas = p
  obtain ⟨n, simple, list⟩ := p
  rcases n with _ | _ | n <;> cases simple <;> rfl

/-- A listener whose handlers have had a complex delta. -/
def delivered (x : Listener) : Listener :=
  if x.deltas.currentDeltaCount > 1 then
    { x with deltas := { x.deltas with complexDelta := x.deltas.complexDelta.clear } }
  else x

theorem delivered_delivered : x.delivered.delivered = x.delivered := by
  unfold delivered
  by_cases h : x.deltas.currentDeltaCount > 1
  · rw [if_pos h]
    rw [if_pos h, DeltaList.clear_clear]
  · rw [if_neg h, if_neg h]

theorem handlerLoop_succ (n : Nat) :
    x.handlerLoop (n + 1) =
      (x.delivery :: (x.delivered.handlerLoop n).1, (x.delivered.handlerLoop n).2) := rfl

theorem length_handlerLoop (n : Nat) : (x.handlerLoop n).1.length = n := by
  induction n generalizing x with
  | zero => rfl
  | succ n ih => rw [handlerLoop_succ, length_cons, ih]

theorem handlerLoop_listener (n : Nat) :
    (x.handlerLoop n).2 = x ∨ (x.handlerLoop n).2 = x.delivered := by
  induction n generalizing x with
  | zero => exact .inl rfl
  | succ n ih =>
    right
    rcases ih x.delivered with h | h
    · exact h
    · exact h.trans x.delivered_delivered

end

theorem list_of_mem_handlerLoop {x : Listener} {n : Nat}
    (h : n ≤ 1 ∨ x.deltas.currentDeltaCount ≤ 1) {g : Delivery} (hg : g ∈ (x.handlerLoop n).1) :
    g.list = x.deltas.waiting := by
  induction n with
  | zero => exact absurd hg not_mem_nil
  | succ n ih =>
    rw [handlerLoop_succ] at hg
    rcases List.mem_cons.mp hg with rfl | hg
    · exact x.list_delivery
    · rcases h with h | h
      · obtain rfl : n = 0 := by omega
        exact absurd hg not_mem_nil
      · have hsame : x.delivered = x := if_neg (by omega)
        rw [hsame] at hg
        exact ih (.inr h) hg

end Listener

namespace Feed

variable {mode : DeltaList.Mode} {x : Feed}

/-! ## What holds between the events -/

/-- The invariant of a feed: as long as deltas are pending, they are what the publisher holds
back. -/
structure Inv (mode : DeltaList.Mode) (x : Feed) : Prop where
  ready : x.publisher.Ready mode
  tells : Tells mode x.handlers x.log
  holds : x.pending ≠ [] → x.publisher.Holds mode x.pending
  timed : x.session.listener.gotInitial → x.forwards x.session.listener →
    x.pending ≠ [] → x.publisher.waiting ≠ [] → x.session.conflationTimer

section

variable (h : x.Inv mode)

include h

theorem Inv.accounted : x.Accounted := by
  have hmode : x.mode = mode := h.ready.mode
  refine ⟨?_, ?_, fun hne => ?_, h.timed⟩
  · rw [hmode]; exact h.tells.told
  · rw [hmode]; exact h.tells.dropped
  · rw [hmode]; exact (h.holds hne).waiting

omit h in
theorem Inv.of_nil (hready : x.publisher.Ready mode) (htells : Tells mode x.handlers x.log)
    (hnil : x.pending = []) : x.Inv mode :=
  ⟨hready, htells, fun hne => absurd hnil hne, fun _ _ hne => absurd hnil hne⟩

variable {y : Feed}

theorem Inv.discard (hready : y.publisher.Ready mode) (hhandlers : y.handlers = x.handlers)
    (hlog : y.log = x.log ++ [.discarded]) : y.Inv mode := by
  refine .of_nil hready ?_ ?_
  · rw [hhandlers, hlog]; exact h.tells.note _ nofun nofun
  · rw [pending, hlog]; exact pendingAfter_other _ nofun

theorem Inv.holds_of_noRest (hrest : x.NoRest) : x.publisher.Holds mode x.pending := by
  by_cases hnil : x.pending = []
  · rw [hnil]
    rcases hrest hnil with hcount | ⟨hcount, hkeep, hclear⟩
    · exact .none hcount rfl
    · refine .list hcount ?_
      have halike := h.ready.clean.alike hkeep
      rwa [hclear, h.ready.mode] at halike
  · exact h.holds hnil

/-! ### An invocation -/

omit h in
theorem invokeDeltaHandlers_zero (h : x.publisher.currentDeltaCount = 0) :
    x.invokeDeltaHandlers = x := by
  rw [invokeDeltaHandlers, if_pos h]

omit h in
theorem invokeDeltaHandlers_log (h : x.publisher.currentDeltaCount ≠ 0) :
    x.invokeDeltaHandlers.log =
      x.log ++ [.invoked (x.session.listener.handlerLoop x.handlers).1] := by
  rw [invokeDeltaHandlers, if_neg h]
  rfl

omit h in
theorem handlers_invokeDeltaHandlers (x : Feed) : x.invokeDeltaHandlers.handlers = x.handlers := by
  unfold invokeDeltaHandlers
  split <;> rfl

omit h in
theorem ready_invokeDeltaHandlers (h : x.publisher.Ready mode) :
    x.invokeDeltaHandlers.publisher.Ready mode := by
  unfold invokeDeltaHandlers
  split
  · exact h
  show Publisher.Ready mode { (x.session.listener.handlerLoop x.handlers).2.deltas with
    currentDeltaCount := 0 }
  rcases x.session.listener.handlerLoop_listener x.handlers with hl | hl
  · rw [hl]; exact ⟨h.clean, h.mode⟩
  · rw [hl]
    unfold Listener.delivered
    split
    · exact h.clear 0
    · exact ⟨h.clean, h.mode⟩

omit h in
/-- **An invocation.**  It gives out everything that is pending and holds nothing back. -/
theorem Inv.invoke (hready : x.publisher.Ready mode) (htells : Tells mode x.handlers x.log)
    (hholds : x.publisher.Holds mode x.pending) (hlook : x.OneLook x.session.listener) :
    x.invokeDeltaHandlers.Inv mode ∧ x.invokeDeltaHandlers.pending = [] := by
  by_cases hcount : x.publisher.currentDeltaCount = 0
  · rw [invokeDeltaHandlers_zero hcount]
    have hnil : x.pending = [] := hholds.eq_nil hcount
    exact ⟨.of_nil hready htells hnil, hnil⟩
  have hlog := invokeDeltaHandlers_log hcount
  have hnil : x.invokeDeltaHandlers.pending = [] := by
    rw [pending, hlog]; exact pendingAfter_other _ nofun
  refine ⟨.of_nil (ready_invokeDeltaHandlers hready) ?_ hnil, hnil⟩
  rw [handlers_invokeDeltaHandlers, hlog]
  refine htells.note _ (fun given heq => ?_) nofun
  obtain rfl := DeltaAct.invoked.inj heq
  refine ⟨Listener.length_handlerLoop _ _, fun g hg => ?_⟩
  exact (Listener.list_of_mem_handlerLoop hlook hg).trans hholds.waiting

/-! ### Updates -/

omit h in
theorem deltas_processBookMessage (l : Listener) (msg : BookMsg) :
    (l.processBookMessage msg false).1.deltas =
      if (l.processBookMessage msg false).1.fields.msgNum = 1 ∧
          l.deltas.complexDelta.conflateDeltas = false then
        { l.deltas with currentDeltaCount := 0 }
      else l.deltas := by
  unfold Listener.processBookMessage
  simp

omit h in
theorem isConsistent_ignored {l : Listener} {msg : BookMsg}
    (h : (l.processBookMessage msg false).2) :
    (l.processBookMessage msg false).1.isConsistent = l.isConsistent ∧
      (l.processBookMessage msg false).1.gotInitial = l.gotInitial := by
  unfold Listener.processBookMessage at h ⊢
  dsimp only at h ⊢
  rw [h]
  simp

def processed (x : Feed) (msg : BookMsg) : Feed :=
  { x with session := (x.session.processBookMessage msg false).1 }

omit h in
theorem publisher_processed (x : Feed) (msg : BookMsg) :
    (x.startsOver msg → (x.processed msg).publisher = { x.publisher with currentDeltaCount := 0 }) ∧
      (¬ x.startsOver msg → (x.processed msg).publisher = x.publisher) := by
  have hpublisher : (x.processed msg).publisher =
      (x.session.listener.processBookMessage msg false).1.deltas := by
    show (x.session.processBookMessage msg false).1.listener.deltas = _
    rw [Session.processBookMessage_listener]
  rw [hpublisher, deltas_processBookMessage]
  exact ⟨fun h => if_pos h, fun h => if_neg h⟩

omit h in
theorem ready_processed (h : x.publisher.Ready mode) (msg : BookMsg) :
    (x.processed msg).publisher.Ready mode := by
  by_cases hover : x.startsOver msg
  · rw [(publisher_processed x msg).1 hover]; exact ⟨h.clean, h.mode⟩
  · rwa [(publisher_processed x msg).2 hover]

theorem Inv.ignored {msg : BookMsg} (hignored : (x.session.listener.processBookMessage msg false).2)
    (hover : x.startsOver msg → x.pending = []) : (x.processed msg).Inv mode := by
  by_cases hstart : x.startsOver msg
  · exact .of_nil (ready_processed h.ready msg) h.tells (hover hstart)
  have hsame := (publisher_processed x msg).2 hstart
  obtain ⟨hconsistent, hinitial⟩ := isConsistent_ignored hignored
  obtain ⟨-, htimer, hinc⟩ := Session.processBookMessage_switches x.session msg false
  refine ⟨ready_processed h.ready msg, h.tells, fun hne => ?_, fun hgot hfwd hne hwait => ?_⟩
  · rw [hsame]; exact h.holds hne
  show (x.session.processBookMessage msg false).1.conflationTimer
  rw [htimer]
  rw [hsame] at hwait
  refine h.timed ?_ ⟨hfwd.1, ?_⟩ hne hwait
  · have hgot' : (x.session.processBookMessage msg false).1.listener.gotInitial := hgot
    rw [Session.processBookMessage_listener] at hgot'
    exact hgot'
  · have hfwd' : ((x.session.processBookMessage msg false).1.updateInconsistentBook ||
        (x.session.processBookMessage msg false).1.listener.isConsistent) := hfwd.2
    rw [Session.processBookMessage_listener, hinc, hconsistent] at hfwd'
    exact hfwd'

omit h in
theorem Inv.forward (hready : x.publisher.Ready mode) (htells : Tells mode x.handlers x.log)
    (hholds : x.publisher.Holds mode x.pending)
    (hlook : x.forwards x.session.listener → conflates x.session.listener = false →
      x.OneLook x.session.listener) : x.forwardUpdate.Inv mode := by
  unfold forwardUpdate
  by_cases hfwd : x.forwards x.session.listener
  · rw [if_pos hfwd]
    cases hconflates : conflates x.session.listener with
    | true => exact ⟨hready, htells, fun _ => hholds, fun _ _ _ _ => rfl⟩
    | false => exact (Inv.invoke hready htells hholds (hlook hfwd hconflates)).1
  · rw [if_neg hfwd]; exact ⟨hready, htells, fun _ => hholds, fun _ h => absurd h hfwd⟩

theorem Inv.handleUpdate {msg : BookMsg} (hstep : x.handleUpdate msg = some y)
    (htakes : x.session.quality = .ok ∨ x.session.updateStaleBook)
    (hmeets : x.Meets (.session (.msg .bookUpdate msg))) : y.Inv mode := by
  unfold Feed.handleUpdate at hstep
  by_cases hgot : x.session.listener.gotInitial
  · rw [if_pos hgot] at hstep
    obtain ⟨hover, hrest⟩ := hmeets ⟨htakes, hgot⟩
    cases hignored : (x.session.listener.processBookMessage msg false).2 with
    | true =>
      rw [hignored] at hstep
      cases hstep
      exact h.ignored hignored hover
    | false =>
      rw [hignored] at hstep
      obtain ⟨l, hl, rfl⟩ := map_eq_some_iff.mp hstep
      obtain ⟨hrest, happly⟩ := hrest hignored
      have hseen : x.session.listener.applyUpdate msg = some l := by
        rw [Listener.applyUpdate, if_pos hgot]
        rw [Session.processBookMessage_listener] at hl
        generalize x.session.listener.processBookMessage msg false = r at hignored hl ⊢
        obtain ⟨l', ignored⟩ := r
        obtain rfl : ignored = false := hignored
        exact hl
      obtain ⟨hkeep, hlook⟩ := happly l hseen
      have hadded : l.deltas = (x.processed msg).publisher.addAll
          (x.processed msg).session.listener.deltasAdded := Listener.caught_createDelta hl
      have hready := ready_processed h.ready msg
      have hholds : (x.processed msg).publisher.Holds mode x.pending := by
        by_cases hstart : x.startsOver msg
        · rw [(publisher_processed x msg).1 hstart, hover hstart]; exact .none rfl rfl
        · rw [(publisher_processed x msg).2 hstart]
          exact h.holds_of_noRest (hrest.resolve_left hstart)
      refine Inv.forward ?_ ?_ ?_ ?_
      · show l.deltas.Ready mode
        rw [hadded]
        exact hready.addAll _
      · exact h.tells.note _ (fun _ h => by cases h) fun h => by cases h
      · show l.deltas.Holds mode (pendingAfter (x.log ++ [.added _]))
        rw [pendingAfter_added, hadded]
        refine hholds.addAll hready _ ?_
        rwa [hadded, Publisher.keepDeltas_addAll] at hkeep
      intro hfwd
      refine hlook ⟨hfwd.1, ?_⟩
      have hinc := (Session.processBookMessage_switches x.session msg false).2.2
      have hfwd' : ((x.session.processBookMessage msg false).1.updateInconsistentBook ||
          l.isConsistent) := hfwd.2
      rw [hinc] at hfwd'
      exact hfwd'
  · rw [if_neg hgot] at hstep
    cases hstep
    exact h

/-! ### The other events -/

section

variable (hrest : x.NoRest)

include hrest

theorem Inv.deliver (hlook : x.OneLook x.session.listener) : x.invokeDeltaHandlers.Inv mode ∧
    x.invokeDeltaHandlers.pending = [] :=
  Inv.invoke h.ready h.tells (h.holds_of_noRest hrest) hlook

/-- Where the timer and the forced delivery find nothing to deliver, everything pending has been
conflated away. -/
theorem Inv.nothing (hdeltas : ¬ x.hasDeltas) :
    x.publisher.Holds mode x.pending ∧ DeltaList.gathered mode x.pending = [] := by
  have hholds := h.holds_of_noRest hrest
  refine ⟨hholds, ?_⟩
  unfold hasDeltas at hdeltas
  rw [not_or, not_not] at hdeltas
  cases hholds with
  | none hcount hds => rw [hds]; exact DeltaList.gathered_nil mode
  | one hcount d hsimple hds => exact absurd hcount hdeltas.1
  | list hcount hlist => exact hlist.empty hdeltas.2

theorem Inv.onTimer (hlook : x.hasDeltas → x.OneLook x.session.listener) : x.onTimer.Inv mode := by
  unfold Feed.onTimer
  by_cases hcount : x.publisher.currentDeltaCount = 0
  · rw [if_pos hcount]; exact .of_nil h.ready h.tells ((h.holds_of_noRest hrest).eq_nil hcount)
  rw [if_neg hcount]
  by_cases hdeltas : x.hasDeltas
  · rw [if_pos hdeltas]
    obtain ⟨hinv, hnil⟩ := h.deliver hrest (hlook hdeltas)
    exact .of_nil hinv.ready hinv.tells hnil
  · rw [if_neg hdeltas]
    obtain ⟨hholds, hempty⟩ := h.nothing hrest hdeltas
    refine ⟨h.ready, h.tells, fun _ => hholds, fun _ _ _ hwait => ?_⟩
    exact absurd (hholds.waiting.trans hempty) hwait

theorem Inv.force (hlook : x.hasDeltas → x.OneLook x.session.listener) :
    x.forceInvokeDeltaHandlers.Inv mode := by
  unfold Feed.forceInvokeDeltaHandlers
  by_cases hcount : x.publisher.currentDeltaCount = 0
  · rwa [if_pos hcount]
  rw [if_neg hcount]
  by_cases hdeltas : x.hasDeltas
  · rw [if_pos hdeltas]
    obtain ⟨hinv, hnil⟩ := h.deliver hrest (hlook hdeltas)
    exact .of_nil ⟨hinv.ready.clean, hinv.ready.mode⟩ hinv.tells hnil
  · rw [if_neg hdeltas]
    obtain ⟨hholds, hempty⟩ := h.nothing hrest hdeltas
    refine .of_nil ⟨h.ready.clean, h.ready.mode⟩ ?_ (pendingAfter_other _ nofun)
    exact h.tells.note _ nofun fun _ => hempty

end

omit h in
theorem ready_processed_recap (h : x.publisher.Ready mode) (msg : BookMsg) :
    (x.session.processBookMessage msg true).1.listener.deltas.Ready mode := by
  have hlist : (x.session.processBookMessage msg true).1.listener.deltas.complexDelta =
      x.publisher.complexDelta := by
    rw [Session.processBookMessage_listener]
    rw [Listener.processBookMessage, apply_ite Publisher.complexDelta, ite_self]
    rfl
  constructor
  · rw [hlist]; exact h.clean
  · rw [hlist]; exact h.mode

theorem Inv.handleClear (msg : BookMsg) :
    Inv mode ({ x with session := (x.session.handleClear msg).1 }.note .discarded) := by
  refine h.discard ?_ rfl rfl
  have hready := ready_processed_recap h.ready msg
  exact ⟨hready.clean.clear, (DeltaList.mode_clear _).trans hready.mode⟩

omit h in
theorem setQuality_frame (x : Session) (quality : Quality) :
    (x.setQuality quality).1.listener.deltas = x.listener.deltas ∧
      (x.setQuality quality).1.conflationTimer = x.conflationTimer ∧
      (x.setQuality quality).1.updateInconsistentBook = x.updateInconsistentBook ∧
      ((x.setQuality quality).1.listener = x.listener ∨
        (x.setQuality quality).1.listener.gotInitial = false) := by
  unfold Session.setQuality
  split
  · exact ⟨rfl, rfl, rfl, .inl rfl⟩
  dsimp only
  split
  · exact ⟨rfl, rfl, rfl, .inl rfl⟩
  · exact ⟨rfl, rfl, rfl, .inl rfl⟩
  all_goals
    split
    · exact ⟨rfl, rfl, rfl, .inr rfl⟩
    · exact ⟨rfl, rfl, rfl, .inl rfl⟩

theorem Inv.handleRecap {msg : BookMsg} {r : Session.Result}
    (hstep : x.session.handleRecap msg = some r) :
    Inv mode ({ x with session := r.1 }.note .discarded) := by
  refine h.discard ?_ rfl rfl
  show r.1.listener.deltas.Ready mode
  have hready := ready_processed_recap h.ready msg
  have hadded : ∀ l, Listener.caught
      (x.session.processBookMessage msg true).1.listener.createDelta = some l →
      l.deltas.Ready mode := by
    intro l hl
    rw [Listener.caught_createDelta hl]
    exact hready.addAll _
  unfold Session.handleRecap at hstep
  dsimp only at hstep
  generalize hl :
    (x.session.processBookMessage msg true).1.listener.createDelta = created at hstep hadded
  cases created with
  | ok l =>
    have hl := hadded l rfl
    dsimp only at hstep
    split at hstep
    · cases hstep
      rw [(setQuality_frame _ _).1]
      exact ⟨hl.clean.clear, (DeltaList.mode_clear _).trans hl.mode⟩
    · cases hstep; exact hl
  | error stop =>
    cases stop with
    | thrown l => cases hstep; exact hadded l rfl
    | crash => cases hstep

theorem Inv.setQuality (quality : Quality) :
    Inv mode { x with session := (x.session.setQuality quality).1 } := by
  obtain ⟨hdeltas, htimer, hinc, hlistener⟩ := setQuality_frame x.session quality
  have hpublisher : publisher { x with session := (x.session.setQuality quality).1 } =
      x.publisher := hdeltas
  refine ⟨?_, h.tells, ?_, ?_⟩
  · rw [hpublisher]; exact h.ready
  · rw [hpublisher]; exact h.holds
  rw [hpublisher]
  intro hgot hfwd hne hwait
  rw [htimer]
  rcases hlistener with hsame | hlost
  · refine h.timed ?_ ⟨hfwd.1, ?_⟩ hne hwait
    · rwa [← hsame]
    · have hfwd' : ((x.session.setQuality quality).1.updateInconsistentBook ||
          (x.session.setQuality quality).1.listener.isConsistent) := hfwd.2
      rw [hinc, hsame] at hfwd'
      exact hfwd'
  · exact absurd hgot (by rw [hlost]; exact Bool.false_ne_true)

/-- **One event.** -/
theorem Inv.step {e : DeltaEvent} (hmeets : x.Meets e) (hstep : x.step e = some y) :
    y.Inv mode := by
  cases e with
  | session e =>
    cases e with
    | msg msgType msg =>
      cases msgType with
      | bookUpdate =>
        simp only [Feed.step, onMsg] at hstep
        split at hstep
        · cases hstep; exact h
        next hfresh =>
        refine h.handleUpdate hstep ?_ hmeets
        by_cases hq : x.session.quality = .ok
        · exact .inl hq
        · right
          rw [← Bool.not_eq_false]
          exact fun hs => hfresh ⟨hq, hs⟩
      | bookClear => cases hstep; exact h.handleClear msg
      | bookInitial | bookRecap | bookSnapshot =>
        obtain ⟨r, hr, rfl⟩ := map_eq_some_iff.mp hstep
        exact h.handleRecap hr
      | other => cases hstep; exact h
    | unreadable msgType =>
      cases hstep
      unfold Session.onUnreadable Session.throwUnread
      split
      · exact ⟨h.ready, h.tells, h.holds, h.timed⟩
      · exact h
    | quality quality => cases hstep; exact h.setQuality quality
    | timer =>
      simp only [Feed.step] at hstep
      split at hstep
      · next htimer =>
        cases hstep
        obtain ⟨hrest, hlook⟩ := hmeets htimer
        exact h.onTimer hrest hlook
      · cases hstep; exact h
  | forceInvokeDeltaHandlers => cases hstep; exact h.force hmeets.1 hmeets.2
  | clearConflatedDeltas => cases hstep; exact h.discard ⟨h.ready.clean, h.ready.mode⟩ rfl rfl

end

theorem inv_new (o : Options) (listener : Listener) (junk : Nat) :
    Inv (new o listener junk).mode (new o listener junk) := by
  refine .of_nil ⟨?_, rfl⟩ ⟨?_, ?_⟩ rfl
  · show DeltaList.Clean { DeltaList.new junk with
      conflateDeltas := o.conflateDeltas
      processEntries := o.processEntries }
    unfold DeltaList.Clean
    split
    · trivial
    · rfl
    · exact ⟨rfl, rfl⟩
  · exact fun pre given post hsplit => absurd hsplit (by simp [new])
  · exact fun pre post hsplit => absurd hsplit (by simp [new])

/-- **Delivery over whole runs.**  In a run whose events all meet the condition every handler sees
the same deltas and nothing is lost. -/
theorem accounted_of_meets (o : Options) (listener : Listener) (junk : Nat) (y : Feed)
    (h : Runs step Meets (new o listener junk) y) : y.Accounted := by
  have hinv : y.Inv (new o listener junk).mode :=
    h.invariant (inv_new o listener junk) fun s e s' hs hmeets hstep => hs.step hmeets hstep
  exact hinv.accounted

def plain (handlers : Nat) : Feed :=
  .new ⟨handlers, true, false, true, false, false, true⟩ (Listener.new 0 (fun _ => true) 0) 0

def recap : DeltaEvent := .session (.msg .bookRecap (emptyRecap 1))

def twoLevels : BookMsg :=
  let level (price : Price) : LevelMsg :=
    [.plPrice price, .plSide .bid, .plAction .add, .plSize 5, .plNumAttach 0]
  [.msgSeqNum 2, .priceLevels [level 10, level 11]]

def recapped : Feed := ((plain 1).step recap).get (by decide +kernel)

theorem accounted_oneHandler :
    ((recapped.step (.session (.msg .bookUpdate twoLevels))).get (by decide +kernel)).Accounted ∧
      ((recapped.step (.session (.msg .bookUpdate twoLevels))).get (by decide +kernel)).log.length =
        3 := by
  have hrecap : Runs step Meets (plain 1) recapped :=
    .step (l := recap) .init trivial (some_get _).symm
  have hkeep : (recapped.session.listener.applyUpdate twoLevels).map
      (fun l => l.deltas.complexDelta.keepDeltas) = some true := by decide +kernel
  have hmeets : recapped.Meets (.session (.msg .bookUpdate twoLevels)) := by
    refine fun _ => ⟨fun _ => rfl, fun _ => ⟨.inr fun _ => .inl rfl, fun l hl => ⟨?_, ?_⟩⟩⟩
    · rw [hl] at hkeep; exact .inl (some.inj hkeep)
    · exact fun _ _ => .inl (Nat.le_refl 1)
  exact ⟨accounted_of_meets _ _ _ _ (hrecap.step hmeets (some_get _).symm), by decide +kernel⟩

/-- **Each handler is given every delta once and in order.**  Without conflation this holds between
any two points of a run whose events meet the condition, unless something is discarded there. -/
theorem given_of_meets (o : Options) (listener : Listener) (junk : Nat) (y : Feed)
    (h : Runs step Meets (new o listener junk) y) (hplain : o.conflateDeltas = false)
    {pre post : List DeltaAct} (hlog : y.log = pre ++ post) (hkept : .discarded ∉ post)
    {i : Nat} (hi : i < y.handlers) :
    pendingAfter pre ++ addedIn post = givenTo i post ++ y.pending := by
  have hmode : (new o listener junk).mode = .plain := by
    show (if o.conflateDeltas then _ else _) = _
    rw [hplain]
    rfl
  have hinv : y.Inv (new o listener junk).mode :=
    h.invariant (inv_new o listener junk) fun s e s' hs hmeets hstep => hs.step hmeets hstep
  rw [hmode] at hinv
  rw [pending, hlog]
  exact Tells.addedIn_eq pre (hlog ▸ hinv.tells) hkept hi

def oneLevel : BookMsg :=
  [.msgSeqNum 2,
    .priceLevels [[.plPrice 10, .plSide .bid, .plAction .add, .plSize 5, .plNumAttach 0]]]

def recappedTwo : Feed := ((plain 2).step recap).get (by decide +kernel)

theorem given_of_meets_two :
    let y := (recappedTwo.step (.session (.msg .bookUpdate oneLevel))).get (by decide +kernel)
    pendingAfter [.discarded] ++ addedIn (y.log.drop 1) = givenTo 1 (y.log.drop 1) ++ y.pending ∧
      (givenTo 1 y.log).length = 1 := by
  intro y
  have hrecap : Runs step Meets (plain 2) recappedTwo :=
    .step (l := recap) .init trivial (some_get _).symm
  have hlist : (recappedTwo.session.listener.applyUpdate oneLevel).map
      (fun l => (l.deltas.complexDelta.keepDeltas, decide (l.deltas.currentDeltaCount ≤ 1))) =
        some (true, true) := by decide +kernel
  have hmeets : recappedTwo.Meets (.session (.msg .bookUpdate oneLevel)) := by
    refine fun _ => ⟨fun _ => rfl, fun _ => ⟨.inr fun _ => .inl rfl, fun l hl => ?_⟩⟩
    rw [hl] at hlist
    obtain ⟨hkeep, hone⟩ := Prod.mk.inj (some.inj hlist)
    exact ⟨.inl hkeep, fun _ _ => .inr (of_decide_eq_true hone)⟩
  have hkept : (y.log.drop 1).all (fun a => a matches .added _ | .invoked _) := by decide +kernel
  have hlog : y.log = [.discarded] ++ y.log.drop 1 := rfl
  refine ⟨given_of_meets _ _ _ y (hrecap.step hmeets (some_get _).symm) rfl hlog (fun hmem => ?_)
    ?_,
    by decide +kernel⟩
  · cases List.all_eq_true.mp hkept _ hmem
  · decide +kernel

/-! ## Feeds and sessions -/

theorem step_handlers {e : SessionEvent} (h : x.step (.session e) = some y) :
    y.handlers = x.handlers := by
  have hdeliver : ∀ z : Feed, z.invokeDeltaHandlers.handlers = z.handlers := by
    intro z
    unfold invokeDeltaHandlers
    split <;> rfl
  have hforward : ∀ z : Feed, z.forwardUpdate.handlers = z.handlers := by
    intro z
    unfold forwardUpdate
    grind
  cases e with
  | msg msgType msg =>
    cases msgType with
    | bookUpdate =>
      simp only [step, onMsg, handleUpdate] at h
      split at h
      · cases h; rfl
      split at h
      · split at h
        · cases h; rfl
        · obtain ⟨l, -, rfl⟩ := map_eq_some_iff.mp h
          exact hforward _
      · cases h; rfl
    | bookInitial | bookRecap | bookSnapshot => obtain ⟨r, -, rfl⟩ := map_eq_some_iff.mp h; rfl
    | bookClear | other => cases h; rfl
  | unreadable | quality => cases h; rfl
  | timer =>
    have hclean : ∀ z : Feed, z.cleanupDetached.handlers = z.handlers := fun _ => rfl
    cases h
    unfold onTimer
    grind

theorem handlerLoop_pos (l : Listener) {n : Nat} (hn : 0 < n) :
    (l.handlerLoop n).2 = l.delivered := by
  obtain ⟨n, rfl⟩ := Nat.exists_eq_add_of_lt hn
  rw [Nat.zero_add]
  rcases l.delivered.handlerLoop_listener n with h | h
  · exact h
  · exact h.trans l.delivered_delivered

section

variable (hn : 0 < x.handlers)

include hn

theorem session_invokeDeltaHandlers :
    x.invokeDeltaHandlers.session = x.session.invokeDeltaHandlers.1 := by
  unfold invokeDeltaHandlers Session.invokeDeltaHandlers publisher
  by_cases hcount : x.session.listener.deltas.currentDeltaCount = 0
  · rw [if_pos hcount, if_pos hcount]
  rw [if_neg hcount, if_neg hcount]
  have hloop := handlerLoop_pos x.session.listener hn
  generalize x.session.listener.handlerLoop x.handlers = r at hloop ⊢
  obtain ⟨given, l⟩ := r
  obtain rfl : l = x.session.listener.delivered := hloop
  unfold Listener.delivered Listener.afterHandlers
  by_cases hmany : x.session.listener.deltas.currentDeltaCount > 1
  · rw [if_pos hmany, if_pos hmany]; rfl
  · rw [if_neg hmany, if_neg hmany]; rfl

section

variable (hh : x.session.hasHandlers)

include hh

theorem session_forwardUpdate : x.forwardUpdate.session = x.session.forwardUpdate.1 := by
  unfold forwardUpdate Session.forwardUpdate
  by_cases hfwd : (x.session.updateInconsistentBook || x.session.listener.isConsistent) = true
  · have hforwards : x.forwards x.session.listener := ⟨Nat.pos_iff_ne_zero.mp hn, hfwd⟩
    have hcond : (x.session.hasHandlers &&
        (x.session.updateInconsistentBook || x.session.listener.isConsistent)) = true := by
      rw [hh, hfwd]
      rfl
    rw [if_pos hforwards, if_pos hcond]
    unfold conflates
    by_cases hconflates : (x.session.listener.deltas.complexDelta.conflateDeltas &&
        !x.session.listener.deltas.complexDelta.sendImmediately) = true
    · rw [if_pos hconflates, if_pos hconflates]
      by_cases htimer : x.session.conflationTimer
      · rw [if_pos htimer]
        rw [← htimer]
      · rw [if_neg htimer]
    · rw [if_neg hconflates, if_neg hconflates]; exact session_invokeDeltaHandlers hn
  · rw [if_neg fun h => hfwd h.2, if_neg (by rw [hh]; exact hfwd)]

theorem session_handleUpdate (msg : BookMsg) :
    (x.handleUpdate msg).map session = (x.session.handleUpdate msg).map Prod.fst := by
  unfold handleUpdate Session.handleUpdate
  by_cases hgot : x.session.listener.gotInitial
  · rw [if_pos hgot, if_pos hgot]
    dsimp only
    cases hignored : (x.session.listener.processBookMessage msg false).2 with
    | true => rfl
    | false =>
      cases hl :
        Listener.caught (x.session.processBookMessage msg false).1.listener.createDelta with
      | none => rfl
      | some l =>
        have hhandlers := (Session.processBookMessage_switches x.session msg false).1
        rw [hh] at hhandlers
        exact congrArg some (session_forwardUpdate hn hhandlers)
  · rw [if_neg hgot, if_neg hgot]; rfl

omit hh in
theorem session_onTimer : x.onTimer.session = x.session.onTimer.1 := by
  unfold onTimer Session.onTimer
  dsimp only
  by_cases hcount : x.publisher.currentDeltaCount = 0
  · have hcount' : x.session.listener.deltas.currentDeltaCount = 0 := hcount
    rw [if_pos hcount, if_pos hcount']
  have hcount' : x.session.listener.deltas.currentDeltaCount ≠ 0 := hcount
  rw [if_neg hcount, if_neg hcount']
  by_cases hdeltas : x.hasDeltas
  · have hdeltas' : x.session.listener.deltas.currentDeltaCount = 1 ∨
      x.session.listener.deltas.complexDelta.getSize ≠ 0 := hdeltas
    rw [if_pos hdeltas, if_pos hdeltas']
    rw [cleanupDetached, withListener, session_invokeDeltaHandlers hn]
  · have hdeltas' : ¬ (x.session.listener.deltas.currentDeltaCount = 1 ∨
      x.session.listener.deltas.complexDelta.getSize ≠ 0) := hdeltas
    rw [if_neg hdeltas, if_neg hdeltas']
    rfl

theorem session_step (e : SessionEvent) :
    (x.step (.session e)).map session = (x.session.step e).map Prod.fst := by
  cases e with
  | msg msgType msg =>
    cases msgType with
    | bookUpdate =>
      simp only [step, onMsg, Session.step, Session.onMsg]
      by_cases hstale : x.session.quality ≠ .ok ∧ x.session.updateStaleBook = false
      · rw [if_pos hstale, if_pos hstale]; rfl
      · rw [if_neg hstale, if_neg hstale]; exact session_handleUpdate hn hh msg
    | bookClear => rfl
    | bookInitial | bookRecap | bookSnapshot =>
      simp only [step, onMsg]
      rw [Option.map_map]
      rfl
    | other => rfl
  | unreadable | quality => rfl
  | timer =>
    simp only [step, Session.step]
    cases x.session.conflationTimer with
    | true => exact congrArg some (session_onTimer hn)
    | false => rfl

end

end

/-- **A session with any number of handlers is the session with one**: the listener, its book and
its switches do not depend on how many handlers the deltas go to. -/
theorem session_run (es : List SessionEvent) (hn : 0 < x.handlers) (hh : x.session.hasHandlers) :
    (es.foldlM (fun (z : Feed) e => z.step (.session e)) x).map session =
      (x.session.run es).map Prod.fst := by
  induction es generalizing x with
  | nil => rfl
  | cons e es ih =>
    have hstep := session_step hn hh e
    rw [foldlM_cons, Session.run]
    cases hy : x.step (.session e) with
    | none =>
      rw [hy] at hstep
      rw [Option.map_eq_none_iff.mp hstep.symm]
      rfl
    | some y =>
      rw [hy] at hstep
      obtain ⟨r, hr, hsession⟩ := map_eq_some_iff.mp hstep.symm
      have hhandlers : y.session.hasHandlers := by
        rw [← hsession, Session.step_hasHandlers _ hr, hh]
      have hrest := ih (step_handlers hy ▸ hn) hhandlers
      rw [hr]
      show (es.foldlM (fun (z : Feed) e => z.step (.session e)) y).map session = _
      rw [hrest, ← hsession]
      show _ = Option.map Prod.fst (r.1.run es >>= fun s => some (s.1, r.2 ++ s.2))
      cases r.1.run es <;> rfl

theorem session_run_two :
    ([.msg .bookRecap (emptyRecap 1), .msg .bookUpdate twoLevels].foldlM
      (fun (z : Feed) e => z.step (.session e)) (plain 2)).map session =
      ((plain 2).session.run
        [.msg .bookRecap (emptyRecap 1), .msg .bookUpdate twoLevels]).map Prod.fst :=
  session_run _ (by decide) rfl

/-! ## Two handlers -/

/-- Whether two handlers have been given different numbers of deltas at once. -/
def uneven (x : Feed) : Bool :=
  x.log.any fun a => match a with
    | .invoked given => given.any fun g => given.any fun g' => g.list.length != g'.list.length
    | _ => false

theorem Accounted.even (h : x.Accounted) : x.uneven = false := by
  rw [← Bool.not_eq_true]
  intro huneven
  obtain ⟨a, ha, hdiffer⟩ := List.any_eq_true.mp huneven
  cases a with
  | invoked given =>
    obtain ⟨pre, post, hlog⟩ := append_of_mem ha
    obtain ⟨-, hall⟩ := h.told pre given post hlog
    obtain ⟨g, hg, hdiffer⟩ := List.any_eq_true.mp hdiffer
    obtain ⟨g', hg', hdiffer⟩ := List.any_eq_true.mp hdiffer
    rw [hall g hg, hall g' hg', bne_self_eq_false] at hdiffer
    cases hdiffer
  | added ds => cases hdiffer
  | discarded => cases hdiffer
  | dropped => cases hdiffer

/-- The second handler is given an empty list. -/
theorem not_accounted_two : ¬ ∀ y, Reachable step (plain 2) y → y.Accounted := by
  intro hall
  have huneven : ([recap, .session (.msg .bookUpdate twoLevels)].foldlM step (plain 2)).map uneven =
      some true := by decide +kernel
  obtain ⟨y, hrun, hy⟩ := map_eq_some_iff.mp huneven
  have heven := (hall y (Runs.init.steps (fun _ _ _ => trivial) hrun)).even
  rw [hy] at heven
  cases heven

end Feed

end Mamda
