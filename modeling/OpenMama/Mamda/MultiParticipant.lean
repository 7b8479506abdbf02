import Mathlib.Init

/-!
# `MamdaMultiParticipantManager`: messages to participants

The manager hands each message to the listeners of its participant, or to the
consolidated listeners, and tells its handlers of a participant that it has no list for.
Every call, message, creation and forward is recorded in order.  What the calls are that
the handlers make is part of the input: `during` holds the calls of each callback that
the message makes, in order.
-/

namespace Mamda

namespace MultiParticipant

/-! ## Messages -/

abbrev Text := List Char

abbrev PartId := Text

/-- What `tryString` finds of a field. -/
inductive Field
  | missing
  | text (s : Text)
  | wrongType
  deriving DecidableEq

inductive MsgType
  | initial
  | recap
  | endOfInitials
  | other
  deriving DecidableEq

structure Msg where
  msgType : MsgType
  partId : Field
  issueSymbol : Field
  indexSymbol : Field
  symbol : Field
  deriving DecidableEq

/-- `MamaMsg::tryString`, which throws on a field that is no text. -/
def tryString : Field → Except Unit (Option Text)
  | .missing => pure none
  | .text s => pure (some s)
  | .wrongType => throw ()

def strrchr (s : Text) (c : Char) : Option Text :=
  if c ∈ s then some (c :: (s.reverse.takeWhile (· ≠ c)).reverse) else none

/-- The symbol in `getPartId`. -/
def getSymbol (x : Msg) : Except Unit (Option Text) := do
  match ← tryString x.issueSymbol with
  | some symbol => pure (some symbol)
  | none =>
    match ← tryString x.indexSymbol with
    | some symbol => pure (some symbol)
    | none => tryString x.symbol

def getPartId (x : Msg) : Except Unit (Option PartId) := do
  let partId ← tryString x.partId
  match partId with
  | some (c :: cs) => pure (some (c :: cs))
  | _ =>
    match ← getSymbol x with
    | none => pure none
    | some symbol =>
      match strrchr symbol '.' with
      -- the test for a final zero is made of the pointer, so it always holds
      | some lastDot => pure (some lastDot.tail)
      | none => pure partId

/-! ## The manager -/

abbrev Listener := Nat

abbrev Handler := Nat

inductive Call
  | addHandler (handler : Handler)
  | addConsolidatedListener (listener : Listener)
  | addParticipantListener (listener : Listener) (partId : PartId)
  deriving DecidableEq

/-- What is recorded; no participant is the consolidated record. -/
inductive Event
  | call (c : Call)
  | msg (x : Msg)
  | create (handler : Handler) (partId : Option PartId)
  | forward (listener : Listener) (x : Msg)
  deriving DecidableEq

/-- `MamdaMultiParticipantManagerImpl`. -/
structure Manager where
  handlers : List Handler
  consListeners : List Listener
  partListeners : PartId → Option (List Listener)
  gotConsolidated : Bool

namespace Manager

def new : Manager := ⟨[], [], fun _ => none, false⟩

/-- The list of a participant, as `operator[]` gives it. -/
def list (m : Manager) (partId : PartId) : List Listener := (m.partListeners partId).getD []

def setList (m : Manager) (partId : PartId) (listeners : List Listener) : Manager :=
  { m with partListeners := fun q => if q = partId then some listeners else m.partListeners q }

/-- `addHandler`, `addConsolidatedListener` and `addParticipantListener`. -/
def perform (m : Manager) : Call → Manager
  | .addHandler handler => { m with handlers := m.handlers ++ [handler] }
  | .addConsolidatedListener listener => { m with consListeners := m.consListeners ++ [listener] }
  | .addParticipantListener listener partId => m.setList partId (m.list partId ++ [listener])

/-- A call of `addHandler`. -/
def addsHandler : Call → Bool
  | .addHandler _ => true
  | _ => false

/-- The loop over the handlers.  A handler that is added meanwhile takes the iterators of the loop
away, and nothing is said of what follows. -/
def callBack (partId : Option PartId) :
    List Handler → List (List Call) → Manager → Option (Manager × List Event)
  | [], _, m => some (m, [])
  | handler :: handlers, during, m =>
    let calls := during.headD []
    if calls.any addsHandler then none
    else
      (callBack partId handlers during.tail (calls.foldl perform m)).map fun (m, events) =>
        (m, .create handler partId :: (calls.map .call ++ events))

def createPartListAndNotify (m : Manager) (partId : PartId) (during : List (List Call)) :
    Option (Manager × List Event) :=
  callBack (some partId) m.handlers during (m.setList partId (m.list partId))

def notifyConsolidatedCreate (m : Manager) (during : List (List Call)) :
    Option (Manager × List Event) :=
  if m.gotConsolidated then some (m, [])
  else callBack none m.handlers during { m with gotConsolidated := true }

def handleFullImage (m : Manager) (partId : Option PartId) (during : List (List Call)) :
    Option (Manager × List Event) :=
  match partId with
  | none => m.notifyConsolidatedCreate during
  | some partId =>
    match m.partListeners partId with
    | some _ => some (m, [])
    | none => m.createPartListAndNotify partId during

def forwardMsg (m : Manager) (x : Msg) (partId : Option PartId) (during : List (List Call)) :
    Option (Manager × List Event) :=
  match partId with
  | some partId =>
    match m.partListeners partId with
    | some listeners => some (m, listeners.map (.forward · x))
    | none =>
      (m.createPartListAndNotify partId during).map fun (m, events) =>
        (m, events ++ (m.list partId).map (.forward · x))
  | none =>
    if m.consListeners ≠ [] then some (m, m.consListeners.map (.forward · x))
    else
      (m.notifyConsolidatedCreate during).map fun (m, events) =>
        (m, events ++ m.consListeners.map (.forward · x))

/-- `onMsg`.  A field that is no text ends it with an exception, which is logged, before anything is
done.  One message creates one record at most, so the calls of the callbacks are those of
`handleFullImage` or those of `forwardMsg`. -/
def onMsg (m : Manager) (x : Msg) (during : List (List Call)) : Option (Manager × List Event) :=
  match x.msgType, getPartId x with
  | .endOfInitials, _ => some (m, [])
  | _, .error _ => some (m, [])
  | .other, .ok partId => m.forwardMsg x partId during
  | _, .ok partId =>
    (m.handleFullImage partId during).bind fun (m, created) =>
      (m.forwardMsg x partId during).map fun (m, events) => (m, created ++ events)

end Manager

/-- A call, or a message and the calls of the callbacks that it makes. -/
inductive Input
  | call (c : Call)
  | msg (x : Msg) (during : List (List Call))

def step (m : Manager) : Input → Option (Manager × List Event)
  | .call c => some (m.perform c, [.call c])
  | .msg x during => (m.onMsg x during).map fun (m, events) => (m, .msg x :: events)

end MultiParticipant

end Mamda
