import Mathlib.Init

/-!
# `ft.c`: members of a fault tolerant group

The members of a group send heartbeats with their credentials: weight, incarnation,
address and process.  A member that hears better credentials than its own stands by;
one that hears none until its timeout timer fires goes active.

Of a timer only its existence is kept, and of an address the bits of the C `int`.  A
timer that fires takes what the socket still holds (the argument `pending`) before it
decides.  What is sent and told goes to the acts, which come back to no member.
-/

namespace Mama

namespace Ft

/-- `mamaFtState`. -/
inductive State
  | standby
  | active
  | unknown
  deriving DecidableEq, Repr

structure Credentials where
  weight : UInt32
  incarnation : UInt32
  ip : Int32
  pid : Int32
  deriving DecidableEq

structure Heartbeat where
  credentials : Credentials
  groupName : String
  deriving DecidableEq

/-- `mamaFtMemberImpl`. -/
structure Member where
  groupName : String
  weight : UInt32
  incarnation : UInt32
  nextIncarnation : UInt32
  isActive : Bool
  heartbeatTimer : Bool
  timeoutTimer : Bool
  heartbeatTick : UInt32
  state : State
  ip : Int32
  pid : Int32
  deriving DecidableEq

inductive Act
  | sendHeartbeat (h : Heartbeat)
  | resetHeartbeatTimer
  | resetTimeoutTimer
  | stateChange (state : State)
  deriving DecidableEq

/-- `mamaBetterCredentials`: zero where the other's are better. -/
def mamaBetterCredentials (my other : Credentials) : Int :=
  if other.weight > my.weight then 0
  else if other.weight = my.weight ∧ other.incarnation > my.incarnation then 0
  else if other.weight = my.weight ∧ other.incarnation = my.incarnation ∧
      other.ip.toUInt32 > my.ip.toUInt32 then 0
  else if other.weight = my.weight ∧ other.incarnation = my.incarnation ∧
      other.ip.toUInt32 = my.ip.toUInt32 ∧ other.pid > my.pid then 0
  else -1

/-- The sender of `other` wins over the member with `my`. -/
def Credentials.Wins (my other : Credentials) : Prop := mamaBetterCredentials my other = 0

instance (my other : Credentials) : Decidable (my.Wins other) :=
  inferInstanceAs (Decidable (_ = _))

namespace Member

/-- `mamaFtMember_create` and the set up. -/
def new (groupName : String) (weight : UInt32) (pid : Int32) : Member where
  groupName := groupName
  weight := weight
  incarnation := 0
  nextIncarnation := 0
  isActive := false
  heartbeatTimer := false
  timeoutTimer := false
  heartbeatTick := 0
  state := .unknown
  ip := 0
  pid := pid

def credentials (x : Member) : Credentials := ⟨x.weight, x.incarnation, x.ip, x.pid⟩

/-- What `ftSendHeartbeat` sends. -/
def heartbeat (x : Member) : Heartbeat := ⟨x.credentials, x.groupName⟩

def startTimeoutTimer (x : Member) : Member × List Act :=
  if x.timeoutTimer then (x, [.resetTimeoutTimer]) else ({ x with timeoutTimer := true }, [])

def stopTimeoutTimer (x : Member) : Member := { x with timeoutTimer := false }

def invokeStateChange (x : Member) (state : State) : Member × List Act :=
  if x.state = state then (x, [])
  else
    let (y, acts) : Member × List Act :=
      match state with
      | .active =>
        let y := { x with incarnation := x.nextIncarnation }
        (y.stopTimeoutTimer, [.sendHeartbeat y.heartbeat, .resetHeartbeatTimer])
      | .standby | .unknown => x.startTimeoutTimer
    ({ y with state := state }, acts ++ [.stateChange state])

/-- `checkState`: the three switches change a state that is not the one it should be. -/
def checkState (x : Member) (state : State) : Member × List Act :=
  match state, x.state with
  | .standby, .standby => (x, [])
  | .active, .active => (x, [])
  | .unknown, .unknown => (x, [])
  | _, _ => x.invokeStateChange state

/-- A member after a heartbeat, whether it was a winning one, and the acts. -/
structure Checked where
  member : Member
  found : Bool
  acts : List Act

def mamaCheckHeartbeat (x : Member) (h : Heartbeat) : Checked :=
  if h.groupName ≠ x.groupName then ⟨x, false, []⟩
  else if h.credentials.pid = x.pid ∧ h.credentials.ip = x.ip then ⟨x, false, []⟩
  else if mamaBetterCredentials x.credentials h.credentials = 0 then
    let x :=
      if h.credentials.incarnation ≥ x.nextIncarnation then
        { x with nextIncarnation := h.credentials.incarnation + 1 }
      else x
    let (x, acts) := x.checkState .standby
    ⟨x, true, acts ++ [.resetTimeoutTimer]⟩
  else ⟨x, false, []⟩

/-- The heartbeats that the socket holds, and whether one of them was a winning one. -/
def receiveAll (x : Member) : List Heartbeat → Checked
  | [] => ⟨x, false, []⟩
  | h :: hs =>
    let first := x.mamaCheckHeartbeat h
    let rest := first.member.receiveAll hs
    ⟨rest.member, first.found || rest.found, first.acts ++ rest.acts⟩

def ftTimeoutTimerCb (x : Member) (pending : List Heartbeat) : Member × List Act :=
  let received := x.receiveAll pending
  if received.found then (received.member, received.acts)
  else
    let (x, acts) := received.member.checkState .active
    (x, received.acts ++ acts)

/-- `mamaFtMember_deactivate`. -/
def deactivate (x : Member) : Member :=
  { ({ x with heartbeatTimer := false } : Member).stopTimeoutTimer with
    isActive := false, incarnation := 0, nextIncarnation := 0 }

/-- `mamaFtMember_activate` on a host with the address. -/
def activate (x : Member) (ip : Int32) : Member × List Act :=
  let x := if x.isActive then x.deactivate else x
  let x := { x with heartbeatTimer := true, ip := ip, nextIncarnation := 1, heartbeatTick := 0 }
  let (x, acts) := x.startTimeoutTimer
  ({ x with isActive := true }, acts)

/-! ## What a heartbeat does -/

/-- A heartbeat of another member of the group with better credentials. -/
def Winning (x : Member) (h : Heartbeat) : Prop :=
  h.groupName = x.groupName ∧ ¬ (h.credentials.pid = x.pid ∧ h.credentials.ip = x.ip) ∧
    x.credentials.Wins h.credentials

instance (x : Member) (h : Heartbeat) : Decidable (x.Winning h) :=
  inferInstanceAs (Decidable (_ ∧ _ ∧ _))

section

variable (x : Member)

include x

theorem startTimeoutTimer_member : x.startTimeoutTimer.1 = { x with timeoutTimer := true } := by
  unfold startTimeoutTimer
  split
  · next h =>
    cases x
    cases h
    rfl
  · rfl

theorem checkState_standby : (x.checkState .standby).1 =
    { x with state := .standby,
             timeoutTimer := x.timeoutTimer || decide (x.state ≠ .standby) } := by
  cases h : x.state with
  | standby =>
    unfold checkState
    cases x
    cases h
    simp
  | active =>
    unfold checkState invokeStateChange
    simp only [h]
    rw [startTimeoutTimer_member]
    simp
  | unknown =>
    unfold checkState invokeStateChange
    simp only [h]
    rw [startTimeoutTimer_member]
    simp

theorem checkState_active : (x.checkState .active).1 =
    if x.state = .active then x
    else { x with incarnation := x.nextIncarnation, timeoutTimer := false, state := .active } := by
  cases h : x.state <;> unfold checkState invokeStateChange <;> simp [h, stopTimeoutTimer]

def raised (next incarnation : UInt32) : UInt32 :=
  if incarnation ≥ next then incarnation + 1 else next

/-- **What a heartbeat does**: a winning one makes the member stand by, with its timeout timer
on. -/
theorem mamaCheckHeartbeat_eq (h : Heartbeat) :
    (x.mamaCheckHeartbeat h).found = decide (x.Winning h) ∧
      (x.mamaCheckHeartbeat h).member = if x.Winning h then
          { x with
            nextIncarnation := raised x.nextIncarnation h.credentials.incarnation
            state := .standby
            timeoutTimer := x.timeoutTimer || decide (x.state ≠ .standby) }
        else x := by
  unfold mamaCheckHeartbeat
  split
  · next hgroup =>
    have hlosing : ¬ x.Winning h := fun hw => hgroup hw.1
    rw [decide_eq_false hlosing, if_neg hlosing]
    exact ⟨rfl, rfl⟩
  next hgroup =>
  split
  · next hown =>
    have hlosing : ¬ x.Winning h := fun hw => hw.2.1 hown
    rw [decide_eq_false hlosing, if_neg hlosing]
    exact ⟨rfl, rfl⟩
  next hown =>
  split
  · next hwins =>
    have hwinning : x.Winning h := ⟨Decidable.not_not.mp hgroup, hown, hwins⟩
    rw [decide_eq_true hwinning]
    refine ⟨rfl, ?_⟩
    dsimp only
    rw [checkState_standby]
    unfold raised
    split <;> rfl
  · next hwins =>
    have hlosing : ¬ x.Winning h := fun hw => hwins hw.2.2
    rw [decide_eq_false hlosing, if_neg hlosing]
    exact ⟨rfl, rfl⟩

end

end Member

end Ft

end Mama
